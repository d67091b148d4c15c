import ZodSchemas.Decimal.Numeral
import ZodSchemas.Web.Request

/-!
# Replies

A request for a document is answered by a response with a status, or not at
all. A status from 200 to 299 means that the text is the document; of any other
the class, the reason and, for a redirection, the new location are reported.
Headers are written in ASCII. With a fixed reply to all requests this is a client.
-/

namespace ZodSchemas

/-- The answer to a request for a document. -/
inductive Reply where
  /-- A response with its status, its text and its headers. -/
  | response (status : Int) (text : Text) (headers : List (Text × Text))
  /-- No response, for some reason. -/
  | unreachable (reason : Text)

namespace Reply

/-- The reasons that belong to statuses. -/
def reasons : List (Int × String) :=
  [(100, "Continue"), (101, "Switching Protocols"), (102, "Processing"), (103, "Early Hints"),
   (300, "Multiple Choices"), (301, "Moved Permanently"), (302, "Found"), (303, "See Other"),
   (304, "Not Modified"), (305, "Use Proxy"), (307, "Temporary Redirect"),
   (308, "Permanent Redirect"), (400, "Bad Request"), (401, "Unauthorized"),
   (402, "Payment Required"), (403, "Forbidden"), (404, "Not Found"),
   (405, "Method Not Allowed"), (406, "Not Acceptable"),
   (407, "Proxy Authentication Required"), (408, "Request Timeout"), (409, "Conflict"),
   (410, "Gone"), (411, "Length Required"), (412, "Precondition Failed"),
   (413, "Request Entity Too Large"), (414, "Request-URI Too Long"),
   (415, "Unsupported Media Type"), (416, "Requested Range Not Satisfiable"),
   (417, "Expectation Failed"), (418, "I\'m a teapot"), (421, "Misdirected Request"),
   (422, "Unprocessable Entity"), (423, "Locked"), (424, "Failed Dependency"),
   (425, "Too Early"), (426, "Upgrade Required"), (428, "Precondition Required"),
   (429, "Too Many Requests"), (431, "Request Header Fields Too Large"),
   (451, "Unavailable For Legal Reasons"), (500, "Internal Server Error"),
   (501, "Not Implemented"), (502, "Bad Gateway"), (503, "Service Unavailable"),
   (504, "Gateway Timeout"), (505, "HTTP Version Not Supported"),
   (506, "Variant Also Negotiates"), (507, "Insufficient Storage"), (508, "Loop Detected"),
   (510, "Not Extended"), (511, "Network Authentication Required")]

/-- The reason of a status; unknown statuses have none. -/
def reason (status : Int) : Text := Text.ofString ((reasons.lookup status).getD "")

/-- The class of a status that is no success. -/
def sort (status : Int) : Text :=
  match status / 100 with
  | 1 => "Informational response"
  | 3 => "Redirect response"
  | 4 => "Client error"
  | 5 => "Server error"
  | _ => "Invalid status code"

/-- Where the statuses are explained. -/
def explanation (status : Int) : Text :=
  ("https://" : Text) ++ "developer.mozilla.org" ++ "/en-US/docs/Web/HTTP/Status/" ++
    Numeral.integer status

/-- The values of a header, whose name is compared without regard to case, with commas between. -/
def header? (name : Text) (headers : List (Text × Text)) : Option Text :=
  let lower (t : Text) : Text := t.map fun c =>
    if 0x41 ≤ c.value ∧ c.value ≤ 0x5A then (CodePoint.ofNat? (c.value + 0x20)).getD c else c
  let values := (headers.filter fun e => lower e.1 = name).map (·.2)
  if values.isEmpty then none else some (List.intercalate (", " : Text) values)

/-- Where a redirection leads. -/
def location? (status : Int) (headers : List (Text × Text)) : Option Text :=
  if status ∈ [301, 302, 303, 307, 308] then header? "location" headers else none

/-- The complaint about a status that is no success. -/
def complaint (address : Text) (status : Int) (headers : List (Text × Text)) : Text :=
  let location : Text := match location? status headers with
    | some location => ("Redirect location: \'" : Text) ++ location ++ "\'\n"
    | none => []
  sort status ++ " \'" ++ Numeral.integer status ++ " " ++ reason status ++ "\' for url \'" ++
    address ++ "\'\n" ++ location ++ "For more information check: " ++ explanation status

/-- Whether the headers of a reply are in ASCII. -/
def isPlain : Reply → Bool
  | .response _ _ headers => headers.all fun e => (e.1 ++ e.2).all fun c => c.value ≤ 0x7F
  | .unreachable _ => true

/-- The document that a reply brings from an address, or why it brings none. -/
def document (address : Text) : Reply → Except Text Text
  | .response status t headers =>
    if 200 ≤ status ∧ status < 300 then .ok t else .error (complaint address status headers)
  | .unreachable reason => .error reason

/-- What a request brings when this is the reply; a complaint about it names the address in normal
form. -/
def answer (reply : Reply) : Client := fun request => do
  let form ← (Address.normalForm request.address).mapError .unrequestable
  if !reply.isPlain then throw .unreadableHeaders
  (reply.document form).mapError .failed

end Reply

/-- The client that reaches nobody. -/
def Client.offline : Client := (Reply.unreachable "no network").answer

end ZodSchemas
