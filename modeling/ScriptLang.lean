import ScriptLang.Main
import ScriptLang.Proofs.Run.Relation
import ScriptLang.Proofs.Scope.Resolution
import ScriptLang.Proofs.Scope.Shape
import ScriptLang.Proofs.Run.Stability
import ScriptLang.Proofs.Run.Recycling
import ScriptLang.Proofs.Emit.Growth
import ScriptLang.Proofs.Run.Fit
import ScriptLang.Proofs.Run.Safety
import ScriptLang.Proofs.Parser.Lockstep
import ScriptLang.Proofs.Parser.Sources
import ScriptLang.Proofs.Parser.Grammar
import ScriptLang.Proofs.Parser.Levels
import ScriptLang.Proofs.Parser.Reading
import ScriptLang.Proofs.Parser.Soundness
import ScriptLang.Proofs.Parser.Completeness
import ScriptLang.Proofs.Parser.Statements
import ScriptLang.Proofs.Parser.Elses
import ScriptLang.Proofs.Parser.Recognition
import ScriptLang.Proofs.Run.Activity
import ScriptLang.Proofs.Run.Termination
import ScriptLang.Proofs.Emit.Splitting
import ScriptLang.Proofs.Run.CallFree
import ScriptLang.Proofs.Run.Restoration
import ScriptLang.Proofs.Run.Splitting
import ScriptLang.Proofs.Token.Lexemes
import ScriptLang.Proofs.Token.Tiling
import ScriptLang.Proofs.Scope.Outwards
import ScriptLang.Proofs.Scope.Hiding
import ScriptLang.Proofs.Run.Defining
import ScriptLang.Proofs.Run.Registry
import ScriptLang.Proofs.Run.Hiding
import ScriptLang.Proofs.Tree.Proper
import ScriptLang.Proofs.Parser.Output
import ScriptLang.Proofs.Emit.Conditions
import ScriptLang.Proofs.Run.Faults
import ScriptLang.Proofs.Backends
import ScriptLang.Proofs.Emit.Numbers
import ScriptLang.Proofs.Emit.Phrases
import ScriptLang.Proofs.Token.Pieces
import ScriptLang.Proofs.Emit.Rereading
import ScriptLang.Proofs.Run.Limits
import ScriptLang.Proofs.Emit.Dialects
import ScriptLang.Proofs.Emit.Completion
import ScriptLang.Proofs.Run.Completion
import ScriptLang.Proofs.Tree.Places
import ScriptLang.Proofs.Scope.Charts
import ScriptLang.Proofs.Emit.Charting
import ScriptLang.Proofs.Run.Charting
import ScriptLang.Proofs.Run.Following
import ScriptLang.Proofs.Token.Numerals
import ScriptLang.Proofs.Parser.Numerals
import ScriptLang.Proofs.Emit.Literals
import ScriptLang.Proofs.Emit.Counts
import ScriptLang.Proofs.Emit.Prefixes
import ScriptLang.Proofs.Run.Results
import ScriptLang.Proofs.Run.Spreading
import ScriptLang.Proofs.Scope.Stores
import ScriptLang.Proofs.Scope.Uses
import ScriptLang.Proofs.Scope.Writes
import ScriptLang.Proofs.Text.ByteOrder
import ScriptLang.Proofs.Run.Globals
import ScriptLang.Proofs.Token.Braces
import ScriptLang.Proofs.Emit.Calm
import ScriptLang.Proofs.Emit.Stacking
import ScriptLang.Proofs.Emit.Indentation
import ScriptLang.Proofs.Token.Positions
import ScriptLang.Proofs.Parser.Pulls
import ScriptLang.Proofs.Parser.Prospect
import ScriptLang.Proofs.Parser.Keeping
import ScriptLang.Proofs.Parser.Refusals
import ScriptLang.Proofs.Run.Simultaneous
import ScriptLang.Proofs.Parser.Respacing
import ScriptLang.Proofs.Run.Rendering
import ScriptLang.Proofs.Token.Streams
import ScriptLang.Proofs.Run.Exactness
import ScriptLang.Proofs.Token.Groups
import ScriptLang.Proofs.Emit.Searching
import ScriptLang.Proofs.Parser.Seeds
import ScriptLang.Proofs.Run.Blaming
