import AudioPipeline.Http.Client
import Mathlib.Tactic.SplitIfs

/-!
# Splitting a URL (`esp_http_client.c`)

`parse_url` fills the `host` and `file_name` of the client from the URL; `esp_http_client_connect`
formats the request from the URL and the host. A URL is the string without its terminator.
-/

namespace AudioPipeline

/-- `a[j] = c`; `none` past the end of the array. -/
def CharArray.set {n : ℕ} (a : CharArray n) (j : ℕ) (c : UInt8) : Option (CharArray n) :=
  if j < n then some ⟨a.1.set j c, by rw [List.length_set, a.2]⟩ else none

/-- `patterns`. -/
def patterns : List (List UInt8) := [ascii "http://", ascii "https://"]

/-- Where the host starts: behind the last of the patterns that the URL starts with. -/
def urlStart (url : List UInt8) : ℕ :=
  patterns.foldl (fun start p => if p.isPrefixOf url then p.length else start) 0

/-- The loop that copies the host with its port, and the terminator behind it. -/
def copyHost : List UInt8 → ℕ → CharArray 100 → Option (CharArray 100)
  | [], j, host => host.set j 0
  | c :: url, j, host =>
    if c = 0x2F then host.set j 0 else (host.set j c).bind (copyHost url (j + 1))

/-- The loop that cuts the string at its first `:`. -/
def cutPort : List UInt8 → List UInt8
  | [] => []
  | c :: bytes =>
    if c = 0 then c :: bytes else if c = 0x3A then 0 :: bytes else c :: cutPort bytes

theorem length_cutPort (bytes : List UInt8) : (cutPort bytes).length = bytes.length := by
  induction bytes with
  | nil => rfl
  | cons c bytes ih =>
    rw [cutPort]
    split_ifs
    · rfl
    · rfl
    · rw [List.length_cons, ih, List.length_cons]

/-- `cutPort` on an array. -/
def CharArray.cutPort {n : ℕ} (a : CharArray n) : CharArray n :=
  ⟨AudioPipeline.cutPort a.1, by rw [length_cutPort, a.2]⟩

/-- `sscanf(pos, ":%d", port)` at the first `:` of the host. -/
def scanPort (host : List UInt8) : Option ℤ :=
  ((strstr (ascii ":") host).map (List.drop 1)).bind scanInt

/-- The loop that copies the file name, and the terminator behind it. Each `/` but a last one
starts it again. -/
def copyFileName : List UInt8 → ℕ → CharArray 256 → Option (CharArray 256)
  | [], j, fileName => fileName.set j 0
  | c :: url, j, fileName =>
    if c = 0x2F then copyFileName url (if url = [] then j else 0) fileName
    else (fileName.set j c).bind (copyFileName url (j + 1))

/-- What `parse_url` writes. -/
structure ParsedUrl where
  host : CharArray 100
  port : ℤ
  fileName : CharArray 256

/-- `parse_url`; `host` and `fileName` are what the arrays hold before, and `none` is a write past
the end of one. -/
def parseUrl (url : List UInt8) (host : CharArray 100) (fileName : CharArray 256) :
    Option ParsedUrl :=
  let url := url.drop (urlStart url)
  (copyHost url 0 host).bind fun host =>
    let port := (scanPort host.str).getD 80
    (copyFileName url 0 fileName).map fun fileName => ⟨host.cutPort, port, fileName⟩

/-- What `sprintf` makes of the URL and the host. -/
def requestText (url host : List UInt8) : List UInt8 :=
  ascii "GET " ++ url ++ ascii " HTTP/1.1\r\n" ++
    ascii "Accept: text/html,application/xhtml+xml,application/xml;q=0.9,image/webp," ++
    ascii "*/*;q=0.8\r\n" ++
    ascii "User-Agent: Mozilla/5.0 (X11; Linux x86_64) AppleWebKit/537(KHTML, like Gecko) " ++
    ascii "Chrome/47.0.2526Safari/537.36\r\n" ++
    ascii "Host: " ++ host ++ ascii "\r\n" ++ ascii "Connection: keep-alive\r\n" ++ ascii "\r\n"

/-- `esp_http_client_connect`, up to the request; `headBuffer` is the fresh block. -/
def espHttpClientConnect (url : List UInt8) (host : CharArray 100) (fileName : CharArray 256)
    (headBuffer : CharArray 2048) : Option (ParsedUrl × CharArray 2048) :=
  (parseUrl url host fileName).bind fun parsed =>
    (headBuffer.store (requestText url parsed.host.str)).map (parsed, ·)

end AudioPipeline
