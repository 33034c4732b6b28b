import Scriptlet.Diagnostic.Log
import Scriptlet.Main
import Scriptlet.Proofs.Arithmetic
import Scriptlet.Proofs.CallDepth
import Scriptlet.Proofs.Conversation
import Scriptlet.Proofs.Equality
import Scriptlet.Proofs.ErrorPlaces
import Scriptlet.Proofs.Extremes
import Scriptlet.Proofs.Folding
import Scriptlet.Proofs.FrameDiscipline
import Scriptlet.Proofs.Inheritance
import Scriptlet.Proofs.InsertionOrder
import Scriptlet.Proofs.Jumps
import Scriptlet.Proofs.Lenience
import Scriptlet.Proofs.Loading
import Scriptlet.Proofs.Nesting
import Scriptlet.Proofs.NormalForm
import Scriptlet.Proofs.Powers
import Scriptlet.Proofs.Rendering
import Scriptlet.Proofs.Rereading
import Scriptlet.Proofs.Resuming
import Scriptlet.Proofs.Scopes
import Scriptlet.Proofs.Syntax.Extent
import Scriptlet.Proofs.Syntax.Integers
import Scriptlet.Proofs.Syntax.LineBreaks
import Scriptlet.Proofs.Syntax.LongestMatch
import Scriptlet.Proofs.Syntax.Quotations
import Scriptlet.Proofs.Syntax.Recovery
import Scriptlet.Proofs.Syntax.RoundTrip
import Scriptlet.Proofs.Syntax.TokenText
import Scriptlet.Proofs.Unfinished
import Scriptlet.Proofs.Unreachable
