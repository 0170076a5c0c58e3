import Semblance.Main
import Semblance.Outline.Request
import Semblance.Proofs.Comparison.FastPath
import Semblance.Proofs.Comparison.RenamedCopy
import Semblance.Proofs.Comparison.Weighing
import Semblance.Proofs.Files.SoundTree
import Semblance.Proofs.Lexing.Joining
import Semblance.Proofs.Lexing.Locality
import Semblance.Proofs.Lexing.Reflow
import Semblance.Proofs.Lexing.Trimming
import Semblance.Proofs.Number.Nearest
import Semblance.Proofs.Scan.BlankSubmissions
import Semblance.Proofs.Scan.Outcome
import Semblance.Proofs.Scan.Ranking
import Semblance.Proofs.Similarity.Bounds
import Semblance.Proofs.Similarity.LinePairing
import Semblance.Proofs.Submission.BlankFiles
import Semblance.Proofs.Submission.Headers
import Semblance.Proofs.Text.Squeeze
import Semblance.Proofs.Comparison.Scores
import Semblance.Proofs.Comparison.Coherence
import Semblance.Proofs.Outline.Arena
import Semblance.Proofs.Outline.Brackets
import Semblance.Proofs.Outline.Reading
import Semblance.Proofs.Similarity.Symmetry
import Semblance.Proofs.Comparison.Renaming
import Semblance.Proofs.Comparison.Swapping
import Semblance.Proofs.Files.Reach
import Semblance.Proofs.Submission.Addition
import Semblance.Proofs.Scan.Newcomer
import Semblance.Proofs.Scan.Accounting
import Semblance.Proofs.Comparison.Padding
import Semblance.Proofs.Submission.Sizes
import Semblance.Proofs.Scan.LargeSubmissions
import Semblance.Proofs.Report.Page
import Semblance.Proofs.Similarity.CommonSubsequence
import Semblance.Proofs.Text.UniqueDecoding
import Semblance.Proofs.Lexing.Kinds
import Semblance.Proofs.Comparison.Skeleton
import Semblance.Proofs.Similarity.WindowSets
import Semblance.Proofs.Comparison.Traits
import Semblance.Proofs.Number.Midpoints
import Semblance.Proofs.Comparison.Percentages
import Semblance.Proofs.Lexing.Relexing
import Semblance.Proofs.Text.Decoding
import Semblance.Proofs.Submission.NormalForm
import Semblance.Proofs.Files.Chains
import Semblance.Proofs.Submission.Walk
import Semblance.Proofs.Submission.Partition
import Semblance.Proofs.Submission.CommentLines
import Semblance.Proofs.Submission.Announced
import Semblance.Proofs.Submission.CommentsOnly
import Semblance.Proofs.Comparison.Means
import Semblance.Proofs.Outline.Keywords
import Semblance.Proofs.Outline.Additions
