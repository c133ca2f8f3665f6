import ScMachine.SctpTypes

/-! What the client sends for an iterator. -/
namespace ScMachine.Sctp
open ScMachine.Store ScMachine.WireFormat

/-- `RequestHeader` in memory. The compiler puts bytes between `flags` and `id`, so that `id` is aligned;
they have no value. -/
def requestHeaderBytes (padding : List Byte) (h : CommandHeader) : List Byte :=
  bytes h.cmdCode ++ bytes h.cmdFlags ++ padding ++ bytes h.cmdId ++ bytes h.cmdParamSize

/-- The bytes between `flags` and `id` when `id` is aligned to its size. -/
def requestHeaderPadding : ℕ := 2

/-- `Iterator3ParamsT` and `Iterator5ParamsT`: the buffer behind the call and the returned size. Each
store is at the offset that the pointer has reached. -/
def iteratorParamsT (buffer : List Byte) : SctpIterator → List Byte × ℕ
  | .f3_a_a param1 param2 param3 =>
    let buffer := put buffer 0 SctpIteratorType.f3_a_a.code
    let buffer := put buffer 1 param1
    let buffer := put buffer 5 param2
    let buffer := put buffer 7 param3
    (buffer, 1+4+2*2)
  | .f3_a_f param1 param2 param3 =>
    let buffer := put buffer 0 SctpIteratorType.f3_a_f.code
    let buffer := put buffer 1 param1
    let buffer := put buffer 5 param2
    let buffer := put buffer 7 param3
    (buffer, 1+4*2+2)
  | .a3_a_f param1 param2 param3 =>
    let buffer := put buffer 0 SctpIteratorType.a3_a_f.code
    let buffer := put buffer 1 param1
    let buffer := put buffer 3 param2
    let buffer := put buffer 5 param3
    (buffer, 1+4+2*2)
  | .f5_a_a_a_f param1 param2 param3 param4 param5 =>
    let buffer := put buffer 0 SctpIteratorType.f5_a_a_a_f.code
    let buffer := put buffer 1 param1
    let buffer := put buffer 5 param2
    let buffer := put buffer 7 param3
    let buffer := put buffer 9 param4
    let buffer := put buffer 11 param5
    (buffer, 1+4*2+2*3)
  | .a5_a_f_a_f param1 param2 param3 param4 param5 =>
    let buffer := put buffer 0 SctpIteratorType.a5_a_f_a_f.code
    let buffer := put buffer 1 param1
    let buffer := put buffer 3 param2
    let buffer := put buffer 5 param3
    let buffer := put buffer 9 param4
    let buffer := put buffer 11 param5
    (buffer, 1+4*2+2*3)
  | .f5_a_f_a_f param1 param2 param3 param4 param5 =>
    let buffer := put buffer 0 SctpIteratorType.f5_a_f_a_f.code
    let buffer := put buffer 1 param1
    let buffer := put buffer 5 param2
    let buffer := put buffer 7 param3
    -- `addrBuff` is not moved behind `param3`
    let buffer := put buffer 7 param4
    let buffer := put buffer 9 param5
    (buffer, 1+4*3+2*2)
  | .a5_a_f_a_a param1 param2 param3 param4 param5 =>
    let buffer := put buffer 0 SctpIteratorType.a5_a_f_a_a.code
    let buffer := put buffer 1 param1
    let buffer := put buffer 3 param2
    let buffer := put buffer 5 param3
    let buffer := put buffer 9 param4
    let buffer := put buffer 11 param5
    (buffer, 1+4+2*4)
  | .f5_a_a_a_a param1 param2 param3 param4 param5 =>
    let buffer := put buffer 0 SctpIteratorType.f5_a_a_a_a.code
    let buffer := put buffer 1 param1
    let buffer := put buffer 5 param2
    let buffer := put buffer 7 param3
    let buffer := put buffer 9 param4
    let buffer := put buffer 11 param5
    (buffer, 1+4+2*4)
  | .f5_a_f_a_a param1 param2 param3 param4 param5 =>
    let buffer := put buffer 0 SctpIteratorType.f5_a_f_a_a.code
    let buffer := put buffer 1 param1
    let buffer := put buffer 5 param2
    let buffer := put buffer 7 param3
    let buffer := put buffer 11 param4
    let buffer := put buffer 13 param5
    (buffer, 1+4*2+2*3)

/-- The header of an iterator request; `id` is the counter of the client after it was increased. -/
def iteratorHeader (id : BitVec 32) (paramsSize : ℕ) : CommandHeader :=
  ⟨SctpCommandCode.iterateElements.code, 0, id, BitVec.ofNat 32 paramsSize⟩

/-- What `Iterator3` and `Iterator5` write to the socket. -/
def iteratorRequest (padding : List Byte) (id : BitVec 32) (buffer : List Byte) (it : SctpIterator) :
    List Byte :=
  let (buffer, paramsSize) := iteratorParamsT buffer it
  requestHeaderBytes padding (iteratorHeader id paramsSize) ++ buffer.take paramsSize

end ScMachine.Sctp
