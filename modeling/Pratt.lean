import Pratt.Json.Reader
import Pratt.Main
import Pratt.Parser.Bound
import Pratt.Proofs.Cursor
import Pratt.Proofs.Demands
import Pratt.Proofs.Precedence
import Pratt.Proofs.RoundTrip
import Pratt.Proofs.Tokenization
import Pratt.Proofs.Demands.Parser
import Pratt.Proofs.Blame
import Pratt.Proofs.Completion
import Pratt.Proofs.Session
import Pratt.Proofs.Placement
import Pratt.Proofs.Spelling
import Pratt.Proofs.Image
import Pratt.Proofs.Leftover
import Pratt.Proofs.Renumbering
import Pratt.Proofs.Occurrence
import Pratt.Proofs.Report
import Pratt.Proofs.Json.Forms
import Pratt.Proofs.Resumption
import Pratt.Proofs.Naming
import Pratt.Proofs.Routes
import Pratt.Proofs.Ambiguity
import Pratt.Proofs.Column
import Pratt.Proofs.Height
import Pratt.Proofs.LinePlace
import Pratt.Proofs.Work
import Pratt.Proofs.Lookahead
