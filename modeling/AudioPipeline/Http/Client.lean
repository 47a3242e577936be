import AudioPipeline.Sal.Url

/-!
# The HTTP client (`esp_http_client.c`)

`esp_http_client_open` reads the header of the response byte by byte into `head_buffer`, which is
not initialised; `parse_header` looks for the fields in it.
-/

namespace AudioPipeline

/-! ### The header loop -/

/-- The allocator: what is in fresh memory, and whether `realloc` grants a size. -/
structure HeadHeap where
  fresh : ℕ → UInt8
  granted : ℕ → Bool

namespace HeadHeap

/-- `malloc(size)`. -/
def malloc (mem : HeadHeap) (size : ℕ) : List UInt8 := (List.range size).map mem.fresh

/-- `realloc(block, size)`, for a larger size. -/
def realloc (mem : HeadHeap) (block : List UInt8) (size : ℕ) : Option (List UInt8) :=
  if mem.granted size then some (block ++ (mem.malloc size).drop block.length) else none

end HeadHeap

/-- How the socket goes on after its last byte: `read` returns 0 or -1 from then on. -/
inductive SocketEnd
  | closed
  | error
  deriving DecidableEq

/-- An access outside of a buffer. -/
inductive HeaderFault
  /-- there is no terminator in `head_buffer` -/
  | unterminated
  /-- `strcat` writes past the end of `head_buffer` -/
  | overflow
  /-- `head_buffer[-1]` -/
  | front
  /-- `buf[-1]` -/
  | negative
  deriving DecidableEq

/-- `strcat(dst, src)`. -/
def strcat (dst src : List UInt8) : Except HeaderFault (List UInt8) :=
  match strlen dst with
  | none => .error .unterminated
  | some n =>
    let str := src.takeWhile (· ≠ 0)
    if n + str.length + 1 ≤ dst.length then
      .ok (dst.take n ++ str ++ 0 :: dst.drop (n + str.length + 1))
    else .error .overflow

/-- The loop that counts the line ends, over the bytes from the last one to the first one. -/
def lineEnds : List UInt8 → Option ℕ
  | [] => none
  | c :: front => if c = 0x0A ∨ c = 0x0D then (lineEnds front).map (· + 1) else some 0

/-- The variables of the header loop. -/
structure HeaderLoop where
  memSize : ℕ
  length : ℕ
  /-- the block of `head_buffer` -/
  head : List UInt8

/-- How the header loop ends. -/
inductive HeaderEnd
  /-- `socket` is what the loop has not received -/
  | read (st : HeaderLoop) (socket : List UInt8)
  /-- `exit(-1)` -/
  | exit
  | fault (f : HeaderFault)

/-- The part before the bytes are appended: `head_buffer` grows, or there is no memory. -/
def growHead (mem : HeadHeap) (len : ℕ) (st : HeaderLoop) : Option HeaderLoop :=
  if st.length + len > st.memSize then
    (mem.realloc st.head (st.memSize * 2)).map fun temp =>
      { st with memSize := st.memSize * 2, head := temp }
  else some st

/-- A byte is appended; `flag` counts the line ends behind the header. -/
def appendHead (head : List UInt8) (c : UInt8) : Except HeaderFault (List UInt8 × ℕ) :=
  match strcat head [c, 0] with
  | .error f => .error f
  | .ok head =>
    match strlen head with
    | none => .error .unterminated
    | some n =>
      match lineEnds (head.take n).reverse with
      | none => .error .front
      | some flag => .ok (head, flag)

/-- The header loop, over the bytes that the socket gives before `fin`. -/
def headerLoop (mem : HeadHeap) (fin : SocketEnd) : List UInt8 → HeaderLoop → HeaderEnd
  | [], st =>
    match fin with
    | .closed => .read st []
    -- `length + len` is below `mem_size`, and the terminator goes to `buf[-1]`
    | .error => .fault .negative
  | c :: bytes, st =>
    match growHead mem 1 st with
    | none => .exit
    | some st =>
      match appendHead st.head c with
      | .error f => .fault f
      | .ok (head, flag) =>
        if flag = 4 then .read { st with head := head } bytes
        else headerLoop mem fin bytes { st with head := head, length := st.length + 1 }

/-- `esp_http_client_open`, up to the end of the header. -/
def readHeader (mem : HeadHeap) (fin : SocketEnd) (bytes : List UInt8) : HeaderEnd :=
  headerLoop mem fin bytes ⟨4096, 0, mem.malloc 4096⟩

/-! ### The fields of the header -/

/-- A `char` array of `n` bytes. -/
def CharArray (n : ℕ) : Type := { bytes : List UInt8 // bytes.length = n }

namespace CharArray

variable {n : ℕ}

/-- The string in the array. -/
def str (a : CharArray n) : List UInt8 := a.1.takeWhile (· ≠ 0)

/-- A word and its terminator are written to the front; `none` past the end of the array. -/
def store (a : CharArray n) (word : List UInt8) : Option (CharArray n) :=
  if h : word.length < n then
    some ⟨word ++ 0 :: a.1.drop (word.length + 1), by
      rw [List.length_append, List.length_cons, List.length_drop, a.2]
      omega⟩
  else none

end CharArray

/-- `HTTP_RES_HEADER`. -/
structure HttpResHeader where
  statusCode : ℤ
  contentType : CharArray 128
  contentLength : ℤ
  location : CharArray 1024

/-- The bytes of an ASCII string. -/
def ascii (s : String) : List UInt8 := s.toList.map fun c => UInt8.ofNat c.toNat

/-- `tolower`, in the C locale. -/
def tolower (c : UInt8) : UInt8 := if 0x41 ≤ c ∧ c ≤ 0x5A then c + 0x20 else c

/-- `strstr(text, name)`, for a name that is not empty. -/
def strstr (name : List UInt8) : List UInt8 → Option (List UInt8)
  | [] => none
  | c :: text => if name.isPrefixOf (c :: text) then some (c :: text) else strstr name text

/-- `%s`: the first word of the text, and the text behind it. -/
def scanWord (text : List UInt8) : Option (List UInt8 × List UInt8) :=
  match text.dropWhile isspace with
  | [] => none
  | c :: text =>
    some ((c :: text).takeWhile (!isspace ·), (c :: text).dropWhile (!isspace ·))

/-- `isdigit`. -/
def isdigit (c : UInt8) : Bool := 0x30 ≤ c && c ≤ 0x39

/-- The number that the digits stand for. -/
def decimal (digits : List UInt8) : ℕ := digits.foldl (fun n c => 10 * n + (c.toNat - 0x30)) 0

/-- The digits at the front of the text as a number. -/
def scanDigits (text : List UInt8) : Option ℕ :=
  match text.takeWhile isdigit with
  | [] => none
  | c :: digits => some (decimal (c :: digits))

/-- `%d` and `%ld`, for numbers that do not overflow. -/
def scanInt (text : List UInt8) : Option ℤ :=
  match text.dropWhile isspace with
  | 0x2D :: text => (scanDigits text).map fun n : ℕ => -(n : ℤ)
  | 0x2B :: text => (scanDigits text).map fun n : ℕ => (n : ℤ)
  | text => (scanDigits text).map fun n : ℕ => (n : ℤ)

/-- The text behind its first word. -/
def skipWord (text : List UInt8) : Option (List UInt8) := (scanWord text).map (·.2)

/-- `sscanf(pos, "%*s %d", …)`, where `pos` is the first place of `name`. -/
def fieldInt (name response : List UInt8) : Option ℤ :=
  ((strstr name response).bind skipWord).bind scanInt

/-- `sscanf(pos, "%*s %s", …)`, where `pos` is the first place of `name`. -/
def fieldWord (name response : List UInt8) : Option (List UInt8) :=
  (((strstr name response).bind skipWord).bind scanWord).map (·.1)

/-- A word is stored if there is one. -/
def storeWord {n : ℕ} (a : CharArray n) : Option (List UInt8) → Option (CharArray n)
  | some word => a.store word
  | none => some a

/-- `parse_header`; `resp` is what the local variable holds before, and `none` is a write past the
end of an array. -/
def parseHeader (resp : HttpResHeader) (response : List UInt8) : Option HttpResHeader :=
  let statusCode := (fieldInt (ascii "HTTP/") response).getD resp.statusCode
  match storeWord resp.contentType (fieldWord (ascii "Content-Type:") response) with
  | none => none
  | some contentType =>
    let contentLength := (fieldInt (ascii "Content-Length:") response).getD resp.contentLength
    match storeWord resp.location (fieldWord (ascii "Location:") response) with
    | none => none
    | some location => some ⟨statusCode, contentType, contentLength, location⟩

end AudioPipeline
