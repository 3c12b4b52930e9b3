import Scriptlet.Batch
import Scriptlet.Binary.Arith
import Scriptlet.Binary.Basic
import Scriptlet.Binary.Reader
import Scriptlet.Binary.Shortest
import Scriptlet.Bind.Error
import Scriptlet.Bind.Overload
import Scriptlet.Bind.Pass
import Scriptlet.Bind.State
import Scriptlet.Bind.Target
import Scriptlet.Bind.Tree
import Scriptlet.Code.Emission
import Scriptlet.Code.Instruction
import Scriptlet.Code.Program
import Scriptlet.Code.Tree
import Scriptlet.Environment.Basic
import Scriptlet.Environment.Part
import Scriptlet.Error
import Scriptlet.Eval.Basic
import Scriptlet.Eval.Builtin
import Scriptlet.Eval.Call
import Scriptlet.Eval.Error
import Scriptlet.Eval.Tree
import Scriptlet.Files
import Scriptlet.Keyword
import Scriptlet.Location
import Scriptlet.Main
import Scriptlet.Parse.Expr
import Scriptlet.Parse.Program
import Scriptlet.Parse.Reply
import Scriptlet.Parse.Statement
import Scriptlet.Pull.Basic
import Scriptlet.Pull.Grammar
import Scriptlet.Registry.Basic
import Scriptlet.Registry.Indexed
import Scriptlet.Registry.Lookup
import Scriptlet.Registry.Primitive
import Scriptlet.Resolution
import Scriptlet.Script
import Scriptlet.Session.Basic
import Scriptlet.Session.Cells
import Scriptlet.Session.Console
import Scriptlet.Session.InPlace
import Scriptlet.Session.Key
import Scriptlet.Session.Line
import Scriptlet.Session.Screen
import Scriptlet.Table
import Scriptlet.Text.Basic
import Scriptlet.Text.Case
import Scriptlet.Text.Cluster.Basic
import Scriptlet.Text.Cluster.Class
import Scriptlet.Text.InPlace
import Scriptlet.Text.Letter
import Scriptlet.Text.Numeral
import Scriptlet.Text.Width.Basic
import Scriptlet.Text.Width.Ligature
import Scriptlet.Text.Width.Picture
import Scriptlet.Text.Width.Single
import Scriptlet.Token.Basic
import Scriptlet.Token.Scan
import Scriptlet.Tree.Basic
import Scriptlet.Tree.Operator
import Scriptlet.Tree.Outline
import Scriptlet.Tree.Row
import Scriptlet.Tree.Text
import Scriptlet.Ty
import Scriptlet.Value.Basic
import Scriptlet.Value.Convert
import Scriptlet.Value.Member
import Scriptlet.Value.Operator
import Scriptlet.Whole
import Scriptlet.Proofs.Agreement.Kinds
import Scriptlet.Proofs.Agreement.Order
import Scriptlet.Proofs.Bind.Exits
import Scriptlet.Proofs.Bind.Joins
import Scriptlet.Proofs.Bind.Rebinding
import Scriptlet.Proofs.Bind.Selection
import Scriptlet.Proofs.Code.Balance
import Scriptlet.Proofs.Code.Ends
import Scriptlet.Proofs.Code.Forward
import Scriptlet.Proofs.Code.Found
import Scriptlet.Proofs.Environment.Assignment
import Scriptlet.Proofs.Environment.Choice
import Scriptlet.Proofs.Eval.Callees
import Scriptlet.Proofs.Eval.Confined
import Scriptlet.Proofs.Eval.Constants
import Scriptlet.Proofs.Eval.Depth
import Scriptlet.Proofs.Eval.Limit
import Scriptlet.Proofs.Eval.Readback
import Scriptlet.Proofs.Eval.Return
import Scriptlet.Proofs.Eval.Target
import Scriptlet.Proofs.Eval.Values
import Scriptlet.Proofs.Groups
import Scriptlet.Proofs.Parse.Consumption
import Scriptlet.Proofs.Parse.Nearest
import Scriptlet.Proofs.Parse.Precedence
import Scriptlet.Proofs.Parse.Sequel.Texts
import Scriptlet.Proofs.Pull.Advances
import Scriptlet.Proofs.Pull.Grammar
import Scriptlet.Proofs.Pull.Replies
import Scriptlet.Proofs.Pull.Window
import Scriptlet.Proofs.Registry.Handles
import Scriptlet.Proofs.Registry.Index
import Scriptlet.Proofs.Session.Accumulation
import Scriptlet.Proofs.Session.Editor
import Scriptlet.Proofs.Token.Lines
import Scriptlet.Proofs.Token.Literal
import Scriptlet.Proofs.Token.Positions
import Scriptlet.Proofs.Value.Comparison
import Scriptlet.Proofs.Value.Decimal
import Scriptlet.Proofs.Value.Exact
import Scriptlet.Proofs.Value.Piece
import Scriptlet.Proofs.Session.Workspace
