import ZodSchemas.Value.Basic
import ZodSchemas.Web.NormalForm

/-!
# Requests

A request asks for the document at an address. It brings a text, or it fails for
a reason in words. What else may go wrong with it has no wording: requests that
cannot be made, replies that cannot be read, and whatever else a client may
break down with.
-/

namespace ZodSchemas

/-- A request for a document. -/
structure Request where
  /-- The address. -/
  address : Text
  /-- After how many seconds to give up. -/
  timeout : Value
  /-- Whether redirections are followed. -/
  followsRedirections : Bool := true

/-- Why a request brought no document. -/
inductive FetchError where
  /-- The request failed, for a reason in words. -/
  | failed (reason : Text)
  /-- No request can be made for the address. -/
  | unrequestable (refusal : Address.Refusal)
  /-- The headers of the reply are not in ASCII. -/
  | unreadableHeaders
  /-- Anything else, by its sort. -/
  | other (sort : Text)
deriving DecidableEq

/-- A client whose answers depend on the requests alone. -/
abbrev Client := Request → Except FetchError Text

/-- A client brings a document or fails in words. -/
def Client.FailsInWords (client : Client) (request : Request) : Prop :=
  ∀ e, client request = .error e → ∃ reason, e = .failed reason

end ZodSchemas
