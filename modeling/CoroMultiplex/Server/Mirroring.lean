import CoroMultiplex.Http.Acceptance
import CoroMultiplex.Http.Resolution
import CoroMultiplex.Server.Responder

/-! HEAD answers as GET does, without the body. -/

set_option autoImplicit false

namespace CoroMultiplex.Server

open Foundations Foundations.Sequence Http Storage HttpResponse

section Messages

end Messages

section Responses

variable {get : Path → Except Exception (Option FileCache)} {request : HttpRequest} {webRoot : Path}

end Responses

end CoroMultiplex.Server
