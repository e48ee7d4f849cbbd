import TypedLua.Config.Document
import TypedLua.Number.Literal
import TypedLua.Proofs.Files.Components
import TypedLua.Proofs.Grammar.Balance
import TypedLua.Proofs.Grammar.PrintedType
import TypedLua.Proofs.Grammar.WrittenExpr
import TypedLua.Proofs.Session.Declarations
import TypedLua.Proofs.Session.Derivation
import TypedLua.Proofs.Session.Exports
import TypedLua.Proofs.Session.Externs
import TypedLua.Proofs.Session.Height
import TypedLua.Proofs.Session.History
import TypedLua.Proofs.Session.Hygiene
import TypedLua.Proofs.Session.Ids
import TypedLua.Proofs.Session.Instances
import TypedLua.Proofs.Session.Names
import TypedLua.Proofs.Session.Nesting
import TypedLua.Proofs.Session.Permissive
import TypedLua.Proofs.Session.Reports
import TypedLua.Proofs.Session.Returns
import TypedLua.Proofs.Session.Spans
import TypedLua.Proofs.Session.Validated
import TypedLua.Proofs.Session.Validation
import TypedLua.Proofs.Session.Varargs
import TypedLua.Proofs.Token.Brackets
import TypedLua.Proofs.Token.Literals
import TypedLua.Proofs.Token.Positions
import TypedLua.Proofs.Token.Progress
import TypedLua.Proofs.Token.Tiling
import TypedLua.Proofs.Tree.Walk
import TypedLua.Proofs.Types.Comparison
import TypedLua.Proofs.Types.Inhabitants
import TypedLua.Proofs.Types.Instantiation
import TypedLua.Proofs.Types.Interning
import TypedLua.Session.Compile
import TypedLua.Tree.Externs
import TypedLua.Types.Substitution
