import Std.Data.ExtTreeMap
import MTRpc.Http.Text
import MTRpc.Lib.Scanner

/-!
# HTTP headers

The request and the response header of `http/rpc_http_header`: the byte-wise parsers, which
keep their state between calls, and the serialisers.

The parsers collect the bytes of a token in the scratch array `buf` through the pointer
`pos`.  An access past the array is undefined behaviour in the source; here the call ends
with the return value `overrun`, with the object as it was before the access.
-/

namespace MTRpc

open Scanner (Outcome Machine)

/-- `MAX_KEY_LEN` -/
def maxKeyLen : ℕ := 256

/-- `MAX_HEADER_SIZE` -/
def maxHeaderSize : ℕ := 1024

/-- `MAX_METHOD_LEN` -/
def maxMethodLen : ℕ := 8

/-- `std::map<std::string, std::string>`, ordered by the bytes of the keys. -/
abbrev Headers := Std.ExtTreeMap Bytes Bytes compare

/-- `HTTP_PARSER_STATE` -/
inductive ParserState
  | start
  /-- `END` -/
  | atEnd
  | reqPath | reqVesionR | reqVesionN | reqKey | reqValueR | reqValueN | reqEndR
  | resStatus | resStatusMessageR | resStatusMessageN | resKey | resValueR | resValueN
  | resEndR
deriving DecidableEq, Repr

/-- What `ParserHeader` returns. -/
inductive ParserRet
  /-- `HTTP_PARSER_FAIL` -/
  | fail
  /-- `HTTP_PASER_HALF` -/
  | half
  /-- `HTTP_PASER_FINISH` -/
  | finish
  /-- The scratch array was left: the source goes on undefined. -/
  | overrun
deriving DecidableEq, Repr

/-! ## The scratch array -/

/-- `char buf[MAX_KEY_LEN]` and `char *pos`, as an offset. -/
structure Scratch where
  buf : ℕ → UInt8
  pos : ℕ

namespace Scratch

/-- The array after `memset`, with `pos` at its start. -/
def zero : Scratch := ⟨fun _ => 0, 0⟩

variable (s : Scratch)

/-- `*pos++ = c` -/
def put (c : UInt8) : Option Scratch :=
  if s.pos < maxKeyLen then some ⟨Function.update s.buf s.pos c, s.pos + 1⟩ else none

/-- `while (*ptr == ' ') ptr++`, from offset `i` with `n` bytes left. -/
def skipSpaces (buf : ℕ → UInt8) : ℕ → ℕ → Option ℕ
  | 0, _ => none
  | n + 1, i => if buf i = 32 then skipSpaces buf n (i + 1) else some i

/-- `while (*ptr != '\0') { s += *ptr; *ptr = '\0'; ptr++; }` -/
def takeText : (ℕ → UInt8) → ℕ → ℕ → Option (Bytes × (ℕ → UInt8))
  | _, 0, _ => none
  | buf, n + 1, i =>
      if buf i = 0 then some ([], buf)
      else (takeText (Function.update buf i 0) n (i + 1)).map fun r => (buf i :: r.1, r.2)

/-- `MoveBufTo(std::string& s)`: the bytes it appends to `s`. -/
def moveBufTo : Option (Bytes × Scratch) :=
  match skipSpaces s.buf maxKeyLen 0 with
  | none => none
  | some i => (takeText s.buf (maxKeyLen - i) i).map fun r => (r.1, ⟨r.2, 0⟩)

/-- `MoveBufTo(uint32_t& s)`: unlike for strings the leading spaces are cleared too. -/
def moveBufToUint (v : ℕ) : Option (ℕ × Scratch) :=
  (takeText s.buf maxKeyLen 0).map fun r => (sscanfU (r.1.dropWhile (· = 32)) v, ⟨r.2, 0⟩)

/-- The bytes `buf[from]`, …, `buf[from + n - 1]`. -/
def slice (n i : ℕ) : Bytes := (List.range n).map fun j => s.buf (i + j)

/-- `HTTP_METHOD_GET_S` and `HTTP_METHOD_POST_S` -/
def methodGet : Bytes := ascii "GET "
def methodPost : Bytes := ascii "POST "

/-- `isMethodFound` for the byte `c`: the last bytes are kept when the array is full, and
a method at the end of what was read puts `pos` back to the start. -/
def isMethodFound (c : UInt8) : Option (Bool × Scratch) :=
  (s.put c).map fun s =>
    let size := s.pos
    let s : Scratch :=
      if maxKeyLen ≤ size then
        ⟨fun i => if i < maxMethodLen then s.buf (size - maxMethodLen + i) else s.buf i,
          maxMethodLen⟩
      else s
    if 4 ≤ size ∧ s.slice 4 (s.pos - 4) = methodGet then (true, ⟨s.buf, 0⟩)
    else if 5 ≤ size ∧ s.slice 5 (s.pos - 5) = methodPost then (true, ⟨s.buf, 0⟩)
    else (false, s)

end Scratch

/-! ## Header objects -/

/-- `HttpHeader` -/
structure HttpHeader where
  state : ParserState
  scratch : Scratch
  headers : Headers
  bodyStart : Iterator
  version : Bytes
  /-- `body_size`, used for the list of services only. -/
  bodySize : ℕ

namespace HttpHeader

def contentLengthKey : Bytes := ascii "Content-Length"
def seqKey : Bytes := ascii "Seq"

/-- `HttpHeader::Reset` leaves `bodyStart` and `body_size` as they are. -/
def reset (h : HttpHeader) : HttpHeader :=
  { h with
    headers := ∅
    version := ascii "HTTP/1.1"
    state := .start
    scratch := .zero }

/-- The base class after construction. -/
def init : HttpHeader :=
  reset ⟨.start, .zero, ∅, ⟨0, 0⟩, [], 0⟩

variable (h : HttpHeader)

/-- `SetHeader` -/
def setHeader (key value : Bytes) : HttpHeader :=
  { h with headers := h.headers.insert key value }

/-- `SetContentLength` -/
def setContentLength (length : ℕ) : HttpHeader :=
  h.setHeader contentLengthKey (decimal (length % 2 ^ 32))

/-- `GetContentLength` -/
def getContentLength : ℤ :=
  match h.headers[contentLengthKey]? with
  | none => 0
  | some v => toInt32 (strtol v)

/-- `SetSeq` -/
def setSeq (seq : ℕ) : HttpHeader := h.setHeader seqKey (decimal seq)

/-- `GetSeq`; without the header it returns `-1` as a `uint64_t`. -/
def getSeq : ℕ :=
  match h.headers[seqKey]? with
  | none => 2 ^ 64 - 1
  | some v => strtoull v

end HttpHeader

/-- `HttpRequestHeader` -/
structure HttpRequestHeader extends HttpHeader where
  method : Bytes
  path : Bytes

/-- `HttpReponseHeader` -/
structure HttpReponseHeader extends HttpHeader where
  status : ℕ
  statusMsg : Bytes

/-- The locals of a call of `ParserHeader`. -/
structure ParserLocals where
  key : Bytes
  value : Bytes
deriving DecidableEq, Repr

/-- The strings at the start of a call. -/
def ParserLocals.fresh : ParserLocals := ⟨[], []⟩

/-- A byte as the parsers see it, with the position of the iterator `begin`. -/
abbrev Tape := List (Iterator × UInt8)

/-! ## The parser for requests -/

namespace HttpRequestHeader

/-- `Reset` -/
def reset (h : HttpRequestHeader) : HttpRequestHeader :=
  { h.toHttpHeader.reset with method := ascii "POST", path := [] }

/-- The constructor. -/
def init : HttpRequestHeader := { HttpHeader.init with method := ascii "POST", path := [] }

variable (h : HttpRequestHeader) (l : ParserLocals)

abbrev Step := Outcome ParserRet HttpRequestHeader ParserLocals

/-- `*pos++ = c` -/
def put (c : UInt8) : Step :=
  match h.scratch.put c with
  | none => .stop .overrun h
  | some s => .go { h with scratch := s } l

/-- `MoveBufTo` followed by what the state does with the token. -/
def moveBufTo (k : Bytes → HttpRequestHeader → Step) : Step :=
  match h.scratch.moveBufTo with
  | none => .stop .overrun h
  | some (tok, s) => k tok { h with scratch := s }

/-- A byte that has to be there. -/
def expect (want c : UInt8) (next : HttpRequestHeader) : Step :=
  if c = want then .go next l else .stop .fail h

/-- The body of the loop of `ParserHeader`: one byte. -/
def step (h : HttpRequestHeader) (l : ParserLocals) : Iterator × UInt8 → Step
  | (it, c) =>
    if maxKeyLen ≤ h.scratch.pos then .stop .fail h
    else
      match h.state with
      | .start =>
          match h.scratch.isMethodFound c with
          | none => .stop .overrun h
          | some (false, s) => .go { h with scratch := s } l
          | some (true, s) =>
              moveBufTo { h with scratch := s } fun tok h =>
                .go { h with method := tok, state := .reqPath } l
      | .reqPath =>
          if c = 32 then
            h.moveBufTo fun tok h =>
              let path := h.path ++ tok
              if path.length = 0 then .stop .fail { h with path := path }
              else .go { h with path := path, state := .reqVesionR } l
          else h.put l c
      | .reqVesionR =>
          if c = 13 then
            h.moveBufTo fun tok h => .go { h with version := tok, state := .reqVesionN } l
          else h.put l c
      | .reqVesionN => h.expect l 10 c { h with state := .reqKey }
      | .reqKey =>
          if c = 58 then
            h.moveBufTo fun tok h =>
              let key := l.key ++ tok
              if key.length = 0 then .stop .fail h
              else .go { h with state := .reqValueR } { l with key := key }
          else if c = 13 then .go { h with state := .reqEndR } l
          else h.put l c
      | .reqValueR =>
          if c = 13 then
            h.moveBufTo fun tok h =>
              .go { h with headers := h.headers.insert l.key (l.value ++ tok), state := .reqValueN }
                .fresh
          else h.put l c
      | .reqValueN => h.expect l 10 c { h with state := .reqKey }
      | .reqEndR => h.expect l 10 c { h with state := .atEnd, bodyStart := it }
      | _ => .go h l

end HttpRequestHeader

/-! ## The parser for responses -/

namespace HttpReponseHeader

/-- `Reset` -/
def reset (h : HttpReponseHeader) : HttpReponseHeader :=
  { h.toHttpHeader.reset with status := 0, statusMsg := [] }

/-- A header after `Reset`. -/
def init : HttpReponseHeader := { HttpHeader.init with status := 0, statusMsg := [] }

/-- `SetStatus` -/
def setStatus (h : HttpReponseHeader) (s : ℕ) (msg : Bytes) : HttpReponseHeader :=
  { h with status := s, statusMsg := msg }

variable (h : HttpReponseHeader) (l : ParserLocals)

abbrev Step := Outcome ParserRet HttpReponseHeader ParserLocals

/-- `*pos++ = c` -/
def put (c : UInt8) : Step :=
  match h.scratch.put c with
  | none => .stop .overrun h
  | some s => .go { h with scratch := s } l

/-- `MoveBufTo` followed by what the state does with the token. -/
def moveBufTo (k : Bytes → HttpReponseHeader → Step) : Step :=
  match h.scratch.moveBufTo with
  | none => .stop .overrun h
  | some (tok, s) => k tok { h with scratch := s }

/-- A byte that has to be there. -/
def expect (want c : UInt8) (next : HttpReponseHeader) : Step :=
  if c = want then .go next l else .stop .fail h

/-- The body of the loop of `ParserHeader`: one byte.  There is no test of the length of
the token here. -/
def step (h : HttpReponseHeader) (l : ParserLocals) : Iterator × UInt8 → Step
  | (it, c) =>
    match h.state with
    | .start =>
        if c = 32 then
          h.moveBufTo fun _ h => .go { h with state := .resStatus } { l with key := [] }
        else h.put l c
    | .resStatus =>
        if c = 32 then
          match h.scratch.moveBufToUint h.status with
          | none => .stop .overrun h
          | some (v, s) => .go { h with scratch := s, status := v, state := .resStatusMessageR } l
        else h.put l c
    | .resStatusMessageR =>
        if c = 13 then
          h.moveBufTo fun tok h =>
            .go { h with statusMsg := h.statusMsg ++ tok, state := .resStatusMessageN } l
        else h.put l c
    | .resStatusMessageN => h.expect l 10 c { h with state := .resKey }
    | .resKey =>
        if c = 58 then
          h.moveBufTo fun tok h => .go { h with state := .resValueR } { l with key := l.key ++ tok }
        else if c = 13 then .go { h with state := .resEndR } l
        else h.put l c
    | .resValueR =>
        if c = 13 then
          h.moveBufTo fun tok h =>
            .go { h with headers := h.headers.insert l.key (l.value ++ tok), state := .resValueN }
              .fresh
        else h.put l c
    | .resValueN => h.expect l 10 c { h with state := .resKey }
    | .resEndR => h.expect l 10 c { h with state := .atEnd, bodyStart := it }
    | _ => .go h l

end HttpReponseHeader

/-! ## `ParserHeader` -/

/-- The loop `for (; begin != end && state != END; ++begin)` of both parsers, over a read
buffer; the first argument bounds the number of rounds. -/
def parserLoop {η : Type} (step : η → ParserLocals → Iterator × UInt8 →
    Outcome ParserRet η ParserLocals) (state : η → ParserState) :
    ℕ → η → ParserLocals → ReadBuffer → ParserRet × η × ReadBuffer
  | 0, h, _, rb => (if state h = .atEnd then .finish else .half, h, rb)
  | fuel + 1, h, l, rb =>
      if rb.isEmpty ∨ state h = .atEnd then (if state h = .atEnd then .finish else .half, h, rb)
      else
        match step h l (rb.readpos, rb.que.load rb.readpos) with
        | .stop ret h => (ret, h, rb)
        | .go h l => parserLoop step state fuel h l rb.advance

/-- `HttpRequestHeader::ParserHeader` -/
def HttpRequestHeader.parserHeader (h : HttpRequestHeader) (rb : ReadBuffer) :
    ParserRet × HttpRequestHeader × ReadBuffer :=
  parserLoop step (·.state) rb.getBufferUsed h .fresh rb

/-- `HttpReponseHeader::ParserHeader` -/
def HttpReponseHeader.parserHeader (h : HttpReponseHeader) (rb : ReadBuffer) :
    ParserRet × HttpReponseHeader × ReadBuffer :=
  parserLoop step (·.state) rb.getBufferUsed h .fresh rb

/-! ## Serialisers -/

/-- `snprintf(buf, size, ...)` at a position of a piece, for the formatted text: at most
`size - 1` bytes and a NUL.  A negative `size` is a huge `size_t`. -/
def snprintf (que : Que) (idx pos : ℕ) (size : ℤ) (text : Bytes) : Que :=
  let out := if 0 < size then text.take (size.toNat - 1) ++ [0]
    else if size = 0 then [] else text ++ [0]
  que.storeAll (PieceRing.cells idx pos out.length) out

/-- The calls of `snprintf` of a serialiser, each followed by the test of the space left:
the return value, the pieces and the offset behind the text. -/
def snprintfAll (idx : ℕ) : Que → ℕ → ℤ → List Bytes → ℤ × Que × ℕ
  | que, pos, _, [] => (0, que, pos)
  | que, pos, size, text :: texts =>
      let que := snprintf que idx pos size text
      if size - text.length ≤ 0 then (-1, que, pos + text.length)
      else snprintfAll idx que (pos + text.length) (size - text.length) texts

/-- The common part of the two `SerializeHeader`s: the first line, the headers in the order
of their keys and the blank line go to the piece of `it`, which is cut to what was written.
Without room the return value is -1 and the piece keeps its size. -/
def serializeHeader (first : Bytes) (headers : Headers) (que : Que) (it : Iterator) :
    ℤ × Que :=
  let lines := headers.toList.map fun kv =>
    cstr kv.1 ++ ascii ": " ++ cstr kv.2 ++ ascii " \r\n"
  match snprintfAll it.idx que it.pos ((que it.idx).size - it.pos)
      (first :: lines ++ [ascii "\r\n"]) with
  | (0, que, pos) => (0, que.setSize it.idx pos)
  | (ret, que, _) => (ret, que)

/-- `HttpRequestHeader::SerializeHeader` -/
def HttpRequestHeader.serializeHeader (h : HttpRequestHeader) (que : Que) (it : Iterator) :
    ℤ × Que :=
  MTRpc.serializeHeader
    (cstr h.method ++ ascii " " ++ cstr h.path ++ ascii " " ++ cstr h.version ++ ascii "\r\n")
    h.headers que it

/-- `HttpReponseHeader::SerializeHeader` -/
def HttpReponseHeader.serializeHeader (h : HttpReponseHeader) (que : Que) (it : Iterator) :
    ℤ × Que :=
  MTRpc.serializeHeader
    (cstr h.version ++ ascii " " ++ decimal h.status ++ ascii " " ++ cstr h.statusMsg
      ++ ascii "\r\n")
    h.headers que it

/-- The loop of `SerializeBody`: `dst` is the offset of `bufptr` in the piece of `it`, `src`
that of `bufpos`.  When a piece is full the source adds the pointer `bufptr` to the offset
of the iterator before `++`, so that `addr`, the addresses of the pieces, decides whether
`++` moves on or stays in the piece at an offset that is no cell, which is undefined. -/
def serializeBodyLoop (addr : ℕ → ℤ) :
    ℕ → Que → Iterator → ℕ → ℕ → Bytes → Option (Que × Iterator)
  | 0, _, _, _, _, _ => none
  | fuel + 1, que, it, src, dst, body =>
      let size := (que it.idx).size - src
      if body.length = 0 then some (que, ⟨it.idx, dst - src⟩)
      else if body.length ≤ size then
        serializeBodyLoop addr fuel
          (que.storeAll (PieceRing.cells it.idx dst body.length) body) it src
          (dst + body.length) []
      else
        let que := que.storeAll (PieceRing.cells it.idx dst size) (body.take size)
        let pos := toInt32 (it.pos + toInt32 (addr it.idx + dst + size)) + 1
        if (que it.idx).size ≤ pos then
          serializeBodyLoop addr fuel que ⟨(it.idx + 1) % maxBufferPieces, 0⟩ 0 0
            (body.drop size)
        else if pos < 0 then none
        else
          serializeBodyLoop addr fuel que ⟨it.idx, pos.toNat⟩ pos.toNat pos.toNat
            (body.drop size)

/-- `SerializeBody`: the pieces and the iterator afterwards, or `none` when an address is
taken that is no cell of a piece. -/
def serializeBody (addr : ℕ → ℤ) (body : Bytes) (que : Que) (it : Iterator) :
    Option (Que × Iterator) :=
  serializeBodyLoop addr (body.length + 2) que it it.pos it.pos body

end MTRpc
