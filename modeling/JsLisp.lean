import JsLisp.Main
import JsLisp.Proofs.Code.Conditional
import JsLisp.Proofs.Code.Enclosed
import JsLisp.Proofs.Code.Escape
import JsLisp.Proofs.Code.Group
import JsLisp.Proofs.Code.Legible
import JsLisp.Proofs.Code.Operand
import JsLisp.Proofs.Code.Position
import JsLisp.Proofs.Code.Shape
import JsLisp.Proofs.Code.Visit
import JsLisp.Proofs.Code.Walk
import JsLisp.Proofs.Command.Batch
import JsLisp.Proofs.Command.Session
import JsLisp.Proofs.Compile.Concat
import JsLisp.Proofs.Compile.Names
import JsLisp.Proofs.Compile.Nesting
import JsLisp.Proofs.Compile.Print
import JsLisp.Proofs.Compile.Sealed
import JsLisp.Proofs.Compile.Strings
import JsLisp.Proofs.Disk.Path
import JsLisp.Proofs.Expr.Refusal
import JsLisp.Proofs.Expr.Resume
import JsLisp.Proofs.Json.Listing
import JsLisp.Proofs.Token.Calls
import JsLisp.Proofs.Token.Cursor
