/-
This file embeds the reply half of `server.c`: the one reply structure the server
shares between all requests, the array of strings an array reply is built from, and the
functions that fill and encode them. All of it is one global state, `Shared`, which a
request finds as the previous one left it.

The array holds the strings themselves. Two lists that no function reads follow the
buffers `create_arr_reply` releases: `released` has the allocation of every buffer it
released, and `stale` that of every buffer it touched after releasing it.
-/

import PseudoRedis.Bss

namespace PseudoRedis

/-! ### Limits and tags -/

def maxRplySize : Nat := 1024 * 1024

def maxArgs : Nat := 1024

def rplyOk : UInt8 := 0x01
def rplyNil : UInt8 := 0x02
def rplyFail : UInt8 := 0x03
def rplyInt : UInt8 := 0x04
def rplyString : UInt8 := 0x06
def rplyArr : UInt8 := 0x07
def rplyDbArr : UInt8 := 0x08
def rplyType : UInt8 := 0x09

def strNormal : UInt8 := 0x00
def strNil : UInt8 := 0x01
def strEnd : UInt8 := 0x02
def strNotQuoted : UInt8 := 0x04
def strNi : UInt8 := 0x08
def needFree : UInt8 := 0x10
def typeMask : UInt8 := 0x0f

/-- `SIZE_TL`: the tag and the length in front of a string. -/
def sizeTl : Nat := 5

/-! ### The shared state -/

structure Reply where
  replyType : UInt8
  arrNum : UInt32
  len : UInt32
  data : Bytes

/-- One place of the reply array. -/
structure Elem where
  bss : Option Bss
  type : UInt8

/-- The reply, the reply array with its `uint8_t` counter, and the two observing lists. -/
structure Shared where
  curr : Reply
  replyArr : Nat → Option Bss
  arrEleType : Nat → UInt8
  rplyArrLen : UInt8
  released : List Nat
  stale : List Nat

/-- The elements below the counter. -/
def Shared.elems (sh : Shared) : List Elem :=
  (List.range sh.rplyArrLen.toNat).map fun index => ⟨sh.replyArr index, sh.arrEleType index⟩

/-- The header and the data `send_reply` writes. -/
def Reply.wire (reply : Reply) : Bytes :=
  reply.replyType :: littleEndian32 reply.arrNum.toNat ++ littleEndian32 reply.len.toNat ++
    reply.data.take reply.len.toNat

/-! ### Replies without elements -/

/-- The type, the length and the first bytes of the data; `arr_num` stays. -/
def Shared.answer (sh : Shared) (type : UInt8) (data : Bytes) : Shared :=
  { sh with
    curr := { sh.curr with
              replyType := type
              len := UInt32.ofNat data.length
              data := data ++ sh.curr.data.drop data.length } }

def createEmptyReply (sh : Shared) (type : UInt8) : Shared × Int :=
  (sh.answer (type &&& typeMask) [], 0)

def createStrReply (sh : Shared) (s : Bytes) (len : Nat) (type : UInt8) :
    Except Fault (Shared × Int) :=
  if maxRplySize < len then
    .ok (sh, eTooLong)
  else if len = 0 then
    .ok (sh.answer (type &&& typeMask) [], 0)
  else if s.length < len then
    .error .outOfBounds
  else
    .ok (sh.answer (type &&& typeMask) (s.take len), 0)

def createIntReply (sh : Shared) (n : Int) : Shared × Int :=
  (sh.answer rplyInt (bigEndian64 n), 0)

def createTypeReply (sh : Shared) (n : UInt8) : Shared × Int :=
  (sh.answer rplyType [n], 0)

/-! ### The reply array -/

def resetReplyArr (sh : Shared) : Shared :=
  { sh with rplyArrLen := 0 }

/-- The counter is compared with `MAX_ARGS` as an `int`, after its promotion. -/
def addtoReplyArr (sh : Shared) (bssPtr : Option Bss) (type : UInt8) : Shared × Int :=
  if sh.rplyArrLen.toNat = maxArgs then
    (sh, eTooLong)
  else
    ({ sh with
       replyArr := fun index =>
         if index = sh.rplyArrLen.toNat then bssPtr else sh.replyArr index
       arrEleType := fun index =>
         if index = sh.rplyArrLen.toNat then type else sh.arrEleType index
       rplyArrLen := sh.rplyArrLen + 1 }, 0)

/-- Calls of `addto_reply_arr` whose results are not looked at. -/
def addAll (sh : Shared) (elems : List Elem) : Shared :=
  elems.foldl (fun sh elem => (addtoReplyArr sh elem.bss elem.type).1) sh

/-- Writing to a string in place: every element that points to it shows the new bytes. -/
def Shared.overwrite (sh : Shared) (bss : Bss) : Shared :=
  { sh with
    replyArr := fun index =>
      (sh.replyArr index).map fun held => if held.id = bss.id then bss else held }

/-! ### Encoding the array -/

/-- The local variables of `create_arr_reply`, and the bytes written at `pos` so far. -/
structure Encoder where
  out : Bytes
  totalLen : UInt32
  type : UInt8
  released : List Nat
  stale : List Nat

/-- Touching a buffer. -/
def Encoder.touch (enc : Encoder) (bss : Bss) : Encoder :=
  { enc with stale := ([bss.id].filter fun id => id ∈ enc.released) ++ enc.stale }

/-- One iteration of the loop. The limit of a nil is tested in 32 bits; that of a string adds the
two 32-bit numbers first and `SIZE_TL`, a `size_t`, afterwards. -/
def encodeElem (enc : Encoder) (elem : Elem) : Except Fault (Encoder × Int) :=
  let type := elem.type
  if strNil &&& type ≠ 0 then
    if (enc.totalLen + 2).toNat > maxRplySize then
      .ok ({ enc with type }, eTooLong)
    else
      .ok ({ enc with
             type
             out := enc.out ++ [type &&& typeMask]
             totalLen := enc.totalLen + 1 }, 0)
  else
    match elem.bss with
    | none => .error .nullPointer
    | some bss =>
        let len := UInt32.ofNat bss.len
        let touched := enc.touch bss
        if (enc.totalLen + len).toNat + sizeTl + 1 > maxRplySize then
          .ok ({ touched with type }, eTooLong)
        else if bss.str.length < len.toNat then
          .error .outOfBounds
        else
          .ok ({ touched with
                 type
                 out := enc.out ++
                   (type &&& typeMask) :: littleEndian32 len.toNat ++ bss.str.take len.toNat
                 totalLen := enc.totalLen + UInt32.ofNat (len.toNat + sizeTl)
                 released :=
                   if type &&& needFree ≠ 0 then bss.id :: enc.released else enc.released }, 0)

/-- The loop: the first element that does not fit ends it. -/
def encodeElems (enc : Encoder) : List Elem → Except Fault (Encoder × Int)
  | [] => .ok (enc, 0)
  | elem :: rest =>
      match encodeElem enc elem with
      | .error fault => .error fault
      | .ok (enc, ret) => if ret ≠ 0 then .ok (enc, ret) else encodeElems enc rest

/-- The local variables before the loop. -/
def Shared.encoder (env : Env) (sh : Shared) : Encoder :=
  ⟨[], 0, env.stack, sh.released, sh.stale⟩

/-- The loop over all elements and the ending `STR_END`. -/
def encodeArr (env : Env) (sh : Shared) : Except Fault (Encoder × Int) :=
  match encodeElems (sh.encoder env) sh.elems with
  | .error fault => .error fault
  | .ok (enc, ret) =>
      if ret ≠ 0 then
        .ok (enc, ret)
      else
        .ok ({ enc with out := enc.out ++ [strEnd], totalLen := enc.totalLen + 1 }, 0)

/-- The number of elements the header announces: the tag of the last element is compared with a
reply type. -/
def Shared.arrNum (sh : Shared) (type : UInt8) : UInt32 :=
  if rplyArr = type then UInt32.ofNat sh.rplyArrLen.toNat
  else UInt32.ofNat sh.rplyArrLen.toNat - 1

/-- The state after the encoder has written its bytes. -/
def Shared.written (sh : Shared) (enc : Encoder) : Shared :=
  { sh with
    curr := { sh.curr with data := enc.out ++ sh.curr.data.drop enc.out.length }
    released := enc.released
    stale := enc.stale }

/-- The state after the header of an array reply is written as well. -/
def Shared.announced (sh : Shared) (enc : Encoder) (arrType : UInt8) : Shared :=
  { sh.written enc with
    curr :=
      { replyType := arrType
        arrNum := sh.arrNum enc.type
        len := enc.totalLen
        data := (sh.written enc).curr.data } }

/-- What was written stays in the data even when the array turns out to be too long. -/
def createArrReply (env : Env) (sh : Shared) (arrType : UInt8) : Except Fault (Shared × Int) :=
  match encodeArr env sh with
  | .error fault => .error fault
  | .ok (enc, ret) =>
      if maxRplySize < enc.out.length then .error .outOfBounds
      else if ret ≠ 0 then .ok (sh.written enc, ret)
      else .ok (sh.announced enc arrType, 0)

end PseudoRedis
