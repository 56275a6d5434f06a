import LocalPost.Http.Asgi.Pump
import LocalPost.Http.H11.NextEvent
import LocalPost.Http.Httptools.Receive

/-!
# Truncated bodies

The three transports side by side, on the same body loop. On h11 a body that is cut off raises. On
httptools a FIN, and on ASGI a disconnect, is `b""` like the end of the message, and the loop
returns what has arrived.
-/

set_option autoImplicit false

namespace LocalPost.Http

end LocalPost.Http
