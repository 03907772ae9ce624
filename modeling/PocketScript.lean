import PocketScript.Embedding
import PocketScript.Log
import PocketScript.Main
import PocketScript.Proofs.Expression.Correct
import PocketScript.Proofs.Environment.Stepping
import PocketScript.Proofs.Environment.Answers
import PocketScript.Proofs.Environment.Guided
import PocketScript.Proofs.Environment.Requests
import PocketScript.Proofs.Machine.Careful
import PocketScript.Proofs.Session.Budget
import PocketScript.Proofs.Session.Clean
import PocketScript.Proofs.Machine.Calls
import PocketScript.Proofs.Compile.Orderly
import PocketScript.Proofs.Compile.Declared
import PocketScript.Proofs.Scope.Table
import PocketScript.Proofs.Image.Loading
import PocketScript.Proofs.Code.Bytes
import PocketScript.Proofs.Code.Symbolic
import PocketScript.Proofs.Heap.Sharing
import PocketScript.Proofs.Heap.Stale
import PocketScript.Proofs.Heap.Tracked
import PocketScript.Proofs.Heap.Updating
import PocketScript.Proofs.Environment.Literals
import PocketScript.Proofs.Timer.Schedule
import PocketScript.Proofs.Machine.ControlFlow
import PocketScript.Proofs.Session.Shipped
import PocketScript.Proofs.Session.Veiled
import PocketScript.Proofs.Machine.Changes
import PocketScript.Proofs.Environment.Bindings
import PocketScript.Proofs.Machine.Coherence
import PocketScript.Proofs.Machine.Lifetime
import PocketScript.Proofs.Compile.Untruncated
import PocketScript.Proofs.Compile.Layout
import PocketScript.Proofs.Compile.Located
import PocketScript.Proofs.Timer.Numbers
import PocketScript.Proofs.Environment.Strings
import PocketScript.Proofs.Compile.Accesses
import PocketScript.Proofs.Environment.Spared
import PocketScript.Proofs.Machine.Chronicle
import PocketScript.Proofs.Machine.Explained
import PocketScript.Proofs.Machine.Scoped
import PocketScript.Proofs.Machine.Chronicled
import PocketScript.Proofs.Environment.Storage
import PocketScript.Proofs.Machine.Lexical
import PocketScript.Proofs.Session.Lexical
