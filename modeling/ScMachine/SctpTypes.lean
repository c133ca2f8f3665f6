import ScMachine.ScTypes
import ScMachine.WireFormat

/-! The codes of the sctp protocol and the parts of a command that the client and the server share. -/
namespace ScMachine.Sctp
open ScMachine.Store ScMachine.WireFormat

/-- `eSctpCommandCode`, without the codes that no handler has. -/
inductive SctpCommandCode where
  | checkElement | getElementType | eraseElement | createNode | createLink | createArc | getArc
  | getLinkContent | findLinks | setLinkContent | iterateElements | iterateConstruction
  | eventCreate | eventDestroy | eventEmit | generateConstruction
  | findElementBySysIdtf | setSysIdtf | statistics
  deriving DecidableEq, Repr

def SctpCommandCode.code : SctpCommandCode → Byte
  | .checkElement => 0x01
  | .getElementType => 0x02
  | .eraseElement => 0x03
  | .createNode => 0x04
  | .createLink => 0x05
  | .createArc => 0x06
  | .getArc => 0x07
  | .getLinkContent => 0x09
  | .findLinks => 0x0a
  | .setLinkContent => 0x0b
  | .iterateElements => 0x0c
  | .iterateConstruction => 0x0d
  | .eventCreate => 0x0e
  | .eventDestroy => 0x0f
  | .eventEmit => 0x10
  | .generateConstruction => 0x11
  | .findElementBySysIdtf => 0xa0
  | .setSysIdtf => 0xa1
  | .statistics => 0xa2

/-- The `switch` over the command code; no case for `SCTP_CMD_VERSION`. -/
def SctpCommandCode.ofCode (b : Byte) : Option SctpCommandCode :=
  [.checkElement, .getElementType, .eraseElement, .createNode, .createLink, .createArc, .getArc,
    .getLinkContent, .findLinks, .setLinkContent, .iterateElements, .iterateConstruction,
    .generateConstruction, .eventCreate, .eventDestroy, .eventEmit, .findElementBySysIdtf,
    .setSysIdtf, .statistics].find? fun c => c.code == b

theorem SctpCommandCode.code_of_ofCode {b : Byte} {c : SctpCommandCode} (h : ofCode b = some c) :
    c.code = b := by
  have hfound := List.find?_some h
  exact eq_of_beq hfound

/-- `eSctpIteratorType`. -/
inductive SctpIteratorType where
  | f3_a_a | a3_a_f | f3_a_f | f5_a_a_a_f | a5_a_f_a_f | f5_a_f_a_f | f5_a_f_a_a | f5_a_a_a_a
  | a5_a_f_a_a
  deriving DecidableEq, Repr

def SctpIteratorType.code : SctpIteratorType → Byte
  | .f3_a_a => 0
  | .a3_a_f => 1
  | .f3_a_f => 2
  | .f5_a_a_a_f => 3
  | .a5_a_f_a_f => 4
  | .f5_a_f_a_f => 5
  | .f5_a_f_a_a => 6
  | .f5_a_a_a_a => 7
  | .a5_a_f_a_a => 8

def sctpIteratorCount : Byte := 9

def SctpIteratorType.ofCode (b : Byte) : Option SctpIteratorType :=
  [.f3_a_a, .a3_a_f, .f3_a_f, .f5_a_a_a_f, .a5_a_f_a_f, .f5_a_f_a_f, .f5_a_f_a_a, .f5_a_a_a_a,
    .a5_a_f_a_a].find? fun t => t.code == b

@[simp] theorem SctpIteratorType.ofCode_code (t : SctpIteratorType) : ofCode t.code = some t := by
  cases t <;> rfl

/-- `eSctpResultCode`. -/
inductive SctpResultCode where
  | ok | fail | errorNoElement | noRights
  deriving DecidableEq, Repr

def SctpResultCode.code : SctpResultCode → Byte
  | .ok => 0x00
  | .fail => 0x01
  | .errorNoElement => 0x02
  | .noRights => 0x03

/-- `eSctpErrorCode`. -/
inductive SctpErrorCode where
  | noError | error | unknownCmd | cmdReadParams | cmdHeaderReadTimeout | cmdParamReadTimeout
  deriving DecidableEq, Repr

/-- An iterator with its parameters, by the elements that are given. -/
inductive SctpIterator where
  | f3_a_a (addr1 : ScAddr) (type2 type3 : ScType)
  | a3_a_f (type1 type2 : ScType) (addr3 : ScAddr)
  | f3_a_f (addr1 : ScAddr) (type2 : ScType) (addr3 : ScAddr)
  | f5_a_a_a_f (addr1 : ScAddr) (type2 type3 type4 : ScType) (addr5 : ScAddr)
  | a5_a_f_a_f (type1 type2 : ScType) (addr3 : ScAddr) (type4 : ScType) (addr5 : ScAddr)
  | f5_a_f_a_f (addr1 : ScAddr) (type2 : ScType) (addr3 : ScAddr) (type4 : ScType) (addr5 : ScAddr)
  | f5_a_f_a_a (addr1 : ScAddr) (type2 : ScType) (addr3 : ScAddr) (type4 type5 : ScType)
  | f5_a_a_a_a (addr1 : ScAddr) (type2 type3 type4 type5 : ScType)
  | a5_a_f_a_a (type1 type2 : ScType) (addr3 : ScAddr) (type4 type5 : ScType)
  deriving DecidableEq, Repr

/-- The head of a command, as its receiver has it. -/
structure CommandHeader where
  cmdCode : Byte
  cmdFlags : Byte
  cmdId : BitVec 32
  cmdParamSize : BitVec 32
  deriving DecidableEq, Repr

/-- `sc_addr` in memory: the segment, then the offset. -/
instance : Raw ScAddr where
  size := 4
  bytes a := bytes (a.seg, a.offset)
  ofBytes l := ⟨(ofBytes l : BitVec 16 × BitVec 16).1, (ofBytes l : BitVec 16 × BitVec 16).2⟩
  length_bytes a := Raw.length_bytes (a.seg, a.offset)
  ofBytes_bytes a := by rw [Raw.ofBytes_bytes]

theorem bytes_addr (a : ScAddr) : bytes a = bytes a.seg ++ bytes a.offset := rfl

end ScMachine.Sctp
