import Paynad.Shared.Json

/-!
# The envelope of every HTTP answer

`AllExceptionsFilter` puts whatever was thrown into an envelope: a failure of the
platform with its own code and message, a failure of the framework, such as an
unknown route, with the generic ones of its status.
-/

namespace Paynad

namespace Shared

structure ApiResponse where
  code : String
  message : String
  data : Json

def ApiResponse.json (response : ApiResponse) : Json :=
  .obj [("code", .str response.code), ("message", .str response.message),
    ("data", response.data)]

inductive Exception where
  /-- `AppException`. -/
  | app (status : ℕ) (code message : String) (payload : Json)
  /-- `HttpException`. -/
  | http (status : ℕ)
  | other

namespace AllExceptionsFilter

def codeForHttpStatus (status : ℕ) : String :=
  if 500 ≤ status then "5000" else "4000"

def messageForHttpStatus (status : ℕ) : String :=
  if 500 ≤ status then "INTERNAL_ERROR" else "VALIDATION_FAILED"

def describe : Exception → ℕ × ApiResponse
  | .app status code message payload => (status, ⟨code, message, payload⟩)
  | .http status => (status, ⟨codeForHttpStatus status, messageForHttpStatus status, .null⟩)
  | .other => (500, ⟨"5000", "INTERNAL_ERROR", .null⟩)

end AllExceptionsFilter

end Shared

end Paynad
