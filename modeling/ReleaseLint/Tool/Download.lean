/-
# Downloads

One request for each download, without repetition, unless the address is too long.  Only a status from 200 to 299 is a
success.
-/

import ReleaseLint.Session
import ReleaseLint.Text.Utf8

namespace ReleaseLint
namespace Tool

/-- The phrases that belong to status codes. -/
def statusPhrases : List (Nat × String) := [
  (100, "Continue"), (101, "Switching Protocols"), (102, "Processing"), (200, "OK"),
  (201, "Created"), (202, "Accepted"), (203, "Non Authoritative Information"),
  (204, "No Content"), (205, "Reset Content"), (206, "Partial Content"), (207, "Multi-Status"),
  (208, "Already Reported"), (226, "IM Used"), (300, "Multiple Choices"),
  (301, "Moved Permanently"), (302, "Found"), (303, "See Other"), (304, "Not Modified"),
  (305, "Use Proxy"), (307, "Temporary Redirect"), (308, "Permanent Redirect"),
  (400, "Bad Request"), (401, "Unauthorized"), (402, "Payment Required"), (403, "Forbidden"),
  (404, "Not Found"), (405, "Method Not Allowed"), (406, "Not Acceptable"),
  (407, "Proxy Authentication Required"), (408, "Request Timeout"), (409, "Conflict"),
  (410, "Gone"), (411, "Length Required"), (412, "Precondition Failed"),
  (413, "Payload Too Large"), (414, "URI Too Long"), (415, "Unsupported Media Type"),
  (416, "Range Not Satisfiable"), (417, "Expectation Failed"), (418, "I'm a teapot"),
  (421, "Misdirected Request"), (422, "Unprocessable Entity"), (423, "Locked"),
  (424, "Failed Dependency"), (425, "Too Early"), (426, "Upgrade Required"),
  (428, "Precondition Required"), (429, "Too Many Requests"),
  (431, "Request Header Fields Too Large"), (451, "Unavailable For Legal Reasons"),
  (500, "Internal Server Error"), (501, "Not Implemented"), (502, "Bad Gateway"),
  (503, "Service Unavailable"), (504, "Gateway Timeout"), (505, "HTTP Version Not Supported"),
  (506, "Variant Also Negotiates"), (507, "Insufficient Storage"), (508, "Loop Detected"),
  (510, "Not Extended"), (511, "Network Authentication Required")]

/-- A status code with its phrase. -/
def statusLine (code : Nat) : String :=
  let phrase := ((statusPhrases.find? (·.1 == code)).map (·.2)).getD "<unknown status code>"
  s!"{code} {phrase}"

/-- The body that a URL answers with. -/
def fetch (url : String) : Session ByteArray := do
  if (Url.ofText url).isTooLong then throw (.download url .addressTooLong)
  match ← Session.ask url with
  | .unreachable => throw (.download url .unreachable)
  | .response code body =>
    if 200 ≤ code && code < 300 then return body
    else throw (.download url (.status (statusLine code)))

/-- The text that a URL answers with. -/
def fetchText (url : String) : Session String := do
  let text := Text.decode (← fetch url)
  return (Text.after? "\ufeff" text).getD text

end Tool
end ReleaseLint
