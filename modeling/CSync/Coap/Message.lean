import CSync.Lib.Bytes
import CSync.Lib.Loop

/-! CoAP messages (`apps/er-coap/er-coap.c`).

    A packet is parsed in the buffer it came in: its strings and its payload point into the datagram, and the parts
    of a path or a query are merged in place. A byte array with its length is the list of its bytes; `S` stands for
    what a string is, a list of bytes or a place in the datagram. An `int` has 32 bits. -/

namespace CSync.Coap
open Lib

/-- `COAP_OPTION_IF_MATCH` and the other option numbers. -/
@[match_pattern] def optionIfMatch : Nat := 1
@[match_pattern] def optionUriHost : Nat := 3
@[match_pattern] def optionEtag : Nat := 4
@[match_pattern] def optionIfNoneMatch : Nat := 5
@[match_pattern] def optionObserve : Nat := 6
@[match_pattern] def optionUriPort : Nat := 7
@[match_pattern] def optionLocationPath : Nat := 8
@[match_pattern] def optionUriPath : Nat := 11
@[match_pattern] def optionContentFormat : Nat := 12
@[match_pattern] def optionMaxAge : Nat := 14
@[match_pattern] def optionUriQuery : Nat := 15
@[match_pattern] def optionAccept : Nat := 17
@[match_pattern] def optionLocationQuery : Nat := 20
@[match_pattern] def optionBlock2 : Nat := 23
@[match_pattern] def optionBlock1 : Nat := 27
@[match_pattern] def optionSize2 : Nat := 28
@[match_pattern] def optionProxyUri : Nat := 35
@[match_pattern] def optionProxyScheme : Nat := 39
@[match_pattern] def optionSize1 : Nat := 60

/-- `COAP_HEADER_LEN`, `COAP_TOKEN_LEN` and `COAP_ETAG_LEN`. -/
def headerLen : Nat := 4
def tokenLen : Nat := 8
def etagLen : Nat := 8

def noError : Nat := 0
def badRequest : Nat := 128
def badOption : Nat := 130
def proxyingNotSupported : Nat := 165

/-- A block option: `block2_num`, `block2_more`, `block2_size` and `block2_offset`. -/
structure Block where
  num : UInt32
  more : UInt8
  size : UInt16
  offset : UInt32
deriving DecidableEq

/-- `coap_packet_t`; `options` is the bitmap of the options that are set. -/
structure CoapPacket (S : Type) where
  version : UInt8
  type : UInt8
  code : UInt8
  mid : UInt16
  token : List UInt8
  options : Nat → Bool
  contentFormat : UInt16
  maxAge : UInt32
  etag : List UInt8
  proxyUri : S
  proxyScheme : S
  uriHost : S
  locationPath : S
  uriPort : UInt16
  locationQuery : S
  uriPath : S
  observe : UInt32
  accept : UInt16
  ifMatch : List UInt8
  block2 : Block
  block1 : Block
  size2 : UInt32
  size1 : UInt32
  uriQuery : S
  ifNoneMatch : UInt8
  payload : S

/-- The packet after `memset`, with `none` for a string of no bytes. -/
def emptyPacket {S : Type} (none : S) : CoapPacket S where
  version := 0
  type := 0
  code := 0
  mid := 0
  token := []
  options := fun _ => false
  contentFormat := 0
  maxAge := 0
  etag := []
  proxyUri := none
  proxyScheme := none
  uriHost := none
  locationPath := none
  uriPort := 0
  locationQuery := none
  uriPath := none
  observe := 0
  accept := 0
  ifMatch := []
  block2 := ⟨0, 0, 0, 0⟩
  block1 := ⟨0, 0, 0, 0⟩
  size2 := 0
  size1 := 0
  uriQuery := none
  ifNoneMatch := 0
  payload := none

def CoapPacket.setOption {S : Type} (p : CoapPacket S) (number : Nat) : CoapPacket S :=
  { p with options := Function.update p.options number true }

/-! ### Parsing -/

/-- A string in the datagram. -/
structure Span where
  start : Nat
  len : Nat
deriving DecidableEq

/-- GHOST: `count` bytes of the datagram are read or written, or the byte behind the payload is cleared. -/
inductive Access where
  | read (index count : Nat)
  | write (index count : Nat)
  | terminate (index : Nat)
deriving DecidableEq

def coapParseIntOption (bytes : List UInt8) : UInt32 := bytes.foldl (fun var b => var <<< 8 ||| b.toUInt32) 0

/-- The delta or the length of an option: its nibble, or what the extended bytes at `i` say. The number, the index
    behind it, and what was read. -/
def extended (b : Nat → UInt8) (nibble i : Nat) : Nat × Nat × List Access :=
  if nibble = 13 then (nibble + (b i).toNat, i + 1, [.read i 1])
  else if nibble = 14 then
    (nibble + 255 + (b i).toNat <<< 8 + (b (i + 1)).toNat, i + 2, [.read i 1, .read (i + 1) 1])
  else (nibble, i, [])

/-- The header of an option. -/
structure Header where
  delta : Nat
  length : Nat
  start : Nat
  log : List Access

def optionHeader (b : Nat → UInt8) (i : Nat) : Header :=
  let delta := extended b ((b i) >>> 4).toNat (i + 1)
  let length := extended b ((b i) &&& 0x0F).toNat delta.2.1
  ⟨delta.1, length.1, length.2.1, .read i 1 :: delta.2.2 ++ length.2.2⟩

/-- `coap_merge_multi_option`: the string, the buffer, and the accesses. -/
def coapMergeMultiOption (b : Nat → UInt8) (dst option : Span) (separator : UInt8) :
    Span × (Nat → UInt8) × List Access :=
  if 0 < dst.len then
    let b := store b (dst.start + dst.len) [separator]
    (⟨dst.start, dst.len + 1 + option.len⟩,
      store b (dst.start + (dst.len + 1)) (slice b option.start option.len),
      [.write (dst.start + dst.len) 1, .read option.start option.len,
        .write (dst.start + (dst.len + 1)) option.len])
  else (option, b, [])

/-- The fields of a block option. -/
def parseBlock (value : UInt32) : Block where
  num := value >>> 4
  more := ((value &&& 0x08) >>> 3).toUInt8
  size := (16 <<< (value &&& 0x07)).toUInt16
  offset := (value &&& ~~~0x0000000F) <<< (value &&& 0x07)

/-- `'/'` and `'&'`. -/
def slash : UInt8 := 0x2f
def ampersand : UInt8 := 0x26

/-- What `coap_parse_message` gives back: its status, the text it sets `coap_error_message` to, if any, the packet and
    the datagram. -/
structure Parsed where
  status : Nat
  message : Option String
  packet : CoapPacket Span
  buffer : Nat → UInt8

/-- The state of the loop over the options. -/
structure Parsing where
  index : Nat
  number : Nat
  packet : CoapPacket Span
  buffer : Nat → UInt8

/-- The option of a known number, or what is returned for it. -/
def applyOption (p : CoapPacket Span) (b : Nat → UInt8) (number : Nat) (option : Span) :
    Except (Nat × String) (CoapPacket Span × (Nat → UInt8)) × List Access :=
  let bytes := slice b option.start option.len
  let whole : List Access := [.read option.start option.len]
  let few : List Access := [.read option.start (min etagLen option.len)]
  let int := coapParseIntOption bytes
  let merge (dst : Span) (separator : UInt8) := coapMergeMultiOption b dst option separator
  match number with
  | optionContentFormat => (.ok ({ p with contentFormat := int.toUInt16 }, b), whole)
  | optionMaxAge => (.ok ({ p with maxAge := int }, b), whole)
  | optionEtag => (.ok ({ p with etag := bytes.take etagLen }, b), few)
  | optionAccept => (.ok ({ p with accept := int.toUInt16 }, b), whole)
  | optionIfMatch => (.ok ({ p with ifMatch := bytes.take etagLen }, b), few)
  | optionIfNoneMatch => (.ok ({ p with ifNoneMatch := 1 }, b), [])
  | optionProxyUri => (.error (proxyingNotSupported, "This is a constrained server (Contiki)"), [])
  | optionProxyScheme => (.error (proxyingNotSupported, "This is a constrained server (Contiki)"), [])
  | optionUriHost => (.ok ({ p with uriHost := option }, b), [])
  | optionUriPort => (.ok ({ p with uriPort := int.toUInt16 }, b), whole)
  | optionUriPath =>
    let m := merge p.uriPath slash
    (.ok ({ p with uriPath := m.1 }, m.2.1), m.2.2)
  | optionUriQuery =>
    let m := merge p.uriQuery ampersand
    (.ok ({ p with uriQuery := m.1 }, m.2.1), m.2.2)
  | optionLocationPath =>
    let m := merge p.locationPath slash
    (.ok ({ p with locationPath := m.1 }, m.2.1), m.2.2)
  | optionLocationQuery =>
    let m := merge p.locationQuery ampersand
    (.ok ({ p with locationQuery := m.1 }, m.2.1), m.2.2)
  | optionObserve => (.ok ({ p with observe := int }, b), whole)
  | optionBlock2 => (.ok ({ p with block2 := parseBlock int }, b), whole)
  | optionBlock1 => (.ok ({ p with block1 := parseBlock int }, b), whole)
  | optionSize2 => (.ok ({ p with size2 := int }, b), whole)
  | optionSize1 => (.ok ({ p with size1 := int }, b), whole)
  | _ =>
    if number % 2 = 1 then (.error (badOption, "Unsupported critical option"), [])
    else (.ok (p, b), [])

/-- The payload behind the marker, cut off at `REST_MAX_CHUNK_SIZE`. -/
def parsePayload (maxChunk n : Nat) (s : Parsing) : Parsed × List Access :=
  let start := s.index + 1
  let len := min (n - start) maxChunk
  (⟨noError, none, { s.packet with payload := ⟨start, len⟩ }, Function.update s.buffer (start + len) 0⟩,
    [.read s.index 1, .terminate (start + len)])

/-- A round of the loop over the options; `n` is `data_len`. -/
def parseOption (maxChunk n : Nat) (s : Parsing) : (Parsing ⊕ Parsed) × List Access :=
  if s.index < n then
    if s.buffer s.index &&& 0xF0 = 0xF0 then
      let r := parsePayload maxChunk n s
      (.inr r.1, r.2)
    else
      let h := optionHeader s.buffer s.index
      let number := s.number + h.delta
      if n < h.start + h.length then (.inr ⟨badRequest, none, s.packet, s.buffer⟩, h.log)
      else if optionSize1 < number then (.inr ⟨badRequest, none, s.packet, s.buffer⟩, h.log)
      else
        let r := applyOption (s.packet.setOption number) s.buffer number ⟨h.start, h.length⟩
        match r.1 with
        | .ok (packet, buffer) => (.inl ⟨h.start + h.length, number, packet, buffer⟩, h.log ++ r.2)
        | .error (status, message) =>
          (.inr ⟨status, some message, s.packet.setOption number, s.buffer⟩, h.log ++ r.2)
  else (.inr ⟨noError, none, s.packet, s.buffer⟩, [])

/-- The header fields of a message. -/
def parseHeader (data : Nat → UInt8) : CoapPacket Span :=
  { emptyPacket ⟨0, 0⟩ with
    version := (0xC0 &&& data 0) >>> 6
    type := (0x30 &&& data 0) >>> 4
    code := data 1
    mid := (data 2).toUInt16 <<< 8 ||| (data 3).toUInt16 }

def tokenLength (data : Nat → UInt8) : Nat := (0x0F &&& data 0).toNat

/-- `coap_parse_message`: what it gives back and what it accesses. The fuel is one more than the datagram has bytes. -/
def coapParseMessage (maxChunk : Nat) (data : Nat → UInt8) (n : Nat) : Option (Parsed × List Access) :=
  let p := parseHeader data
  let header : List Access := [.read 0 4]
  if p.version ≠ 1 then some (⟨badRequest, some "CoAP version must be 1", p, data⟩, header)
  else if tokenLen < tokenLength data then
    some (⟨badRequest, some "Token Length must not be more than 8", p, data⟩, header)
  else
    let p := { p with token := slice data headerLen (tokenLength data) }
    let start := headerLen + tokenLength data
    (loop (parseOption maxChunk n) (n + 1) ⟨start, 0, p, data⟩).map fun r =>
      (r.1, header ++ .read headerLen (tokenLength data) :: r.2)

end CSync.Coap
