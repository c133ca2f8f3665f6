import ScMachine.SctpTypes

/-! How the server reads a command: the header, then the bytes of the parameters, then one parameter
after the other from these. -/
namespace ScMachine.Sctp
open ScMachine.Store ScMachine.WireFormat

/-- A computation that reads from the parameters and gives up when they are too short. -/
abbrev Params : Type → Type := StateT (List Byte) Option

/-- `READ_PARAM`. -/
def readParam (α : Type) [Raw α] : Params α := fun params => read α params

section
variable {α β : Type} [Raw α]

theorem bind_readParam_append (f : α → Params β) {s : List Byte} (h : s.length = Raw.size α)
    (r : List Byte) : (readParam α >>= f) (s ++ r) = f (ofBytes s) r := by
  show (read α (s ++ r)).bind (fun p => f p.1 p.2) = _
  rw [read_append h]
  rfl

theorem bind_readParam_bytes (f : α → Params β) (a : α) (r : List Byte) :
    (readParam α >>= f) (bytes a ++ r) = f a r := by
  rw [bind_readParam_append f (Raw.length_bytes a), Raw.ofBytes_bytes]

theorem bind_readParam_all (f : α → Params β) {s : List Byte} (h : s.length = Raw.size α) :
    (readParam α >>= f) s = f (ofBytes s) [] := by
  have happ := bind_readParam_append f h []
  rw [List.append_nil] at happ
  exact happ

end

/-- `sctpCommand::cmdHeaderSize`. -/
def cmdHeaderSize : ℕ := 2*1+2*4

/-- The four reads of the header. -/
def readCommandHeader : Params CommandHeader := do
  let cmdCode ← readParam Byte
  let cmdFlags ← readParam Byte
  let cmdId ← readParam (BitVec 32)
  let cmdParamSize ← readParam (BitVec 32)
  return ⟨cmdCode, cmdFlags, cmdId, cmdParamSize⟩

/-- `QByteArray paramsData(cmdParamSize, 0)`: its size is an `int`, and a negative one makes an empty
array. -/
def paramsDataSize (cmdParamSize : BitVec 32) : ℕ := cmdParamSize.toInt.toNat

/-- The command at the front of a stream: its header, its parameters and what follows. -/
def readCommand (stream : List Byte) : Except SctpErrorCode (CommandHeader × List Byte × List Byte) :=
  match readCommandHeader stream with
  | none => .error .cmdHeaderReadTimeout
  | some (h, rest) =>
    if rest.length < h.cmdParamSize.toNat then .error .cmdParamReadTimeout
    else
      let size := paramsDataSize h.cmdParamSize
      .ok (h, rest.take size, rest.drop size)

/-- The cases of `processIterateElements`, each with its reads in their order. -/
def readIteratorArgs : SctpIteratorType → Params SctpIterator
  | .a3_a_f => do
    let type1 ← readParam ScType
    let type2 ← readParam ScType
    let addr1 ← readParam ScAddr
    return .a3_a_f type1 type2 addr1
  | .f3_a_a => do
    let addr1 ← readParam ScAddr
    let type1 ← readParam ScType
    let type2 ← readParam ScType
    return .f3_a_a addr1 type1 type2
  | .f3_a_f => do
    let addr1 ← readParam ScAddr
    let type1 ← readParam ScType
    let addr2 ← readParam ScAddr
    return .f3_a_f addr1 type1 addr2
  | .f5_a_a_a_f => do
    let addr1 ← readParam ScAddr
    let type1 ← readParam ScType
    let type2 ← readParam ScType
    let type3 ← readParam ScType
    let addr2 ← readParam ScAddr
    return .f5_a_a_a_f addr1 type1 type2 type3 addr2
  | .a5_a_f_a_a => do
    let type1 ← readParam ScType
    let type2 ← readParam ScType
    let addr1 ← readParam ScAddr
    let type3 ← readParam ScType
    let type4 ← readParam ScType
    return .a5_a_f_a_a type1 type2 addr1 type3 type4
  | .a5_a_f_a_f => do
    let type1 ← readParam ScType
    let type2 ← readParam ScType
    let addr1 ← readParam ScAddr
    let type3 ← readParam ScType
    let addr2 ← readParam ScAddr
    return .a5_a_f_a_f type1 type2 addr1 type3 addr2
  | .f5_a_a_a_a => do
    let addr1 ← readParam ScAddr
    let type1 ← readParam ScType
    let type2 ← readParam ScType
    let type3 ← readParam ScType
    let type4 ← readParam ScType
    return .f5_a_a_a_a addr1 type1 type2 type3 type4
  | .f5_a_f_a_a => do
    let addr1 ← readParam ScAddr
    let type1 ← readParam ScType
    let addr2 ← readParam ScAddr
    let type2 ← readParam ScType
    let type3 ← readParam ScType
    return .f5_a_f_a_a addr1 type1 addr2 type2 type3
  | .f5_a_f_a_f => do
    let addr1 ← readParam ScAddr
    let type1 ← readParam ScType
    let addr2 ← readParam ScAddr
    let type2 ← readParam ScType
    let addr3 ← readParam ScAddr
    return .f5_a_f_a_f addr1 type1 addr2 type2 addr3

/-- The iterator that `processIterateElements` asks for; none when the parameters are too short or the
kind of the iterator is unknown. -/
def readIterator : Params SctpIterator := do
  let iterator_type ← readParam Byte
  match SctpIteratorType.ofCode iterator_type with
  | none => failure
  | some type => readIteratorArgs type

end ScMachine.Sctp
