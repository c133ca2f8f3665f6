import ScMachine.Enumeration
import ScMachine.SctpEventManager
import ScMachine.SctpParams
import ScMachine.ScStorage

/-! How the server processes a command (`sctpCommand.cpp`): what is read of the parameters, what is called,
and which bytes are written. -/
namespace ScMachine.Sctp
open ScMachine.Store ScMachine.WireFormat ScMachine.Enumeration

/-- A call that may change what it is made on; without a result it has stopped the process. -/
abbrev ServerCall (σ α : Type) : Type := StateT σ Option α

/-- `sStatItem` in memory, with the bytes that fill it up. -/
structure StatItem where
  data : List Byte
  length_eq : data.length = 72

/-- What the handlers call, on the memory, the event manager and the statistics. A result that stands for
`SC_RESULT_OK` is `some` or true. A row of an iterator are the values of `sc_iterator3_value` or
`sc_iterator5_value` after a step to the next one. `iterate` is all that is done with the one iterator of
`SCTP_CMD_ITERATE_ELEMENTS`: `sc_iterator3_f_a_a_new` or the call for another kind, which ask whether the given
elements may be read, and the steps. The iterators of a construction are open at the same time:
`iteratorNew` is `sc_iterator3_new`, which does not ask, or `sc_iterator5_new`. -/
structure ServerCalls (σ ι : Type) where
  isElement : ScAddr → ServerCall σ Bool
  getElementType : ScAddr → ServerCall σ (Option ScType)
  elementFree : ScAddr → ServerCall σ Bool
  nodeNew : ScType → ServerCall σ ScAddr
  linkNew : ServerCall σ ScAddr
  arcNew : ScType → ScAddr → ScAddr → ServerCall σ ScAddr
  getArcBegin : ScAddr → ServerCall σ (Option ScAddr)
  getArcEnd : ScAddr → ServerCall σ (Option ScAddr)
  getLinkContent : ScAddr → ServerCall σ (Option (Option ScStream))
  findLinksWithContent : List Byte → ServerCall σ (Option (List ScAddr))
  setLinkContent : ScAddr → List Byte → ServerCall σ Bool
  iterate : SctpIterator → ServerCall σ (Option (List (ℕ → ScAddr)))
  iteratorNew : SctpIterator → ServerCall σ (Option ι)
  iteratorNext : ι → ServerCall σ (Option (ℕ → ScAddr) × ι)
  iteratorFree : ι → ServerCall σ Unit
  findElementBySystemIdentifier : List Byte → ServerCall σ (Option ScAddr)
  setSystemIdentifier : ScAddr → List Byte → ServerCall σ Bool
  createEvent : Byte → ScAddr → ServerCall σ (Option TEventId)
  destroyEvent : TEventId → ServerCall σ Bool
  getStatisticsInTimeRange : BitVec 64 → BitVec 64 → ServerCall σ (List StatItem)

/-- The state of one `sctpCommand`, with what its calls are made on. -/
structure SctpServer (σ : Type) where
  mem : σ
  eventsSet : List TEventId
  sendData : List Byte
  sendEventsCount : BitVec 32

/-- While a command is processed: the parameters that are left, and the bytes written so far. -/
structure SctpSession (σ : Type) extends SctpServer σ where
  params : List Byte
  out : List Byte

/-- A handler that does not come to its end has returned from the middle, or the process has stopped. -/
inductive Halt (σ : Type) where
  | exit (errCode : SctpErrorCode) (s : SctpSession σ)
  | stop

abbrev SctpM (σ : Type) : Type → Type := StateT (SctpSession σ) (Except (Halt σ))

section
variable {σ ι α : Type}

def exit (errCode : SctpErrorCode) : SctpM σ α := fun s => .error (.exit errCode s)

def stop : SctpM σ α := fun _ => .error .stop

/-- Reads of parameters; `READ_PARAM` returns from the handler when they are too short. -/
def params (x : Params α) : SctpM σ α := fun s =>
  match x s.params with
  | none => .error (.exit .cmdReadParams s)
  | some (a, rest) => .ok (a, { s with params := rest })

def call (x : ServerCall σ α) : SctpM σ α := fun s =>
  match x s.mem with
  | none => .error .stop
  | some (a, mem) => .ok (a, { s with mem := mem })

def write (l : List Byte) : SctpM σ Unit := fun s => .ok ((), { s with out := s.out ++ l })

/-- `Q_ASSERT`, which is left out of a build without assertions. -/
def qAssert (asserts : Bool) (p : Prop) [Decidable p] : SctpM σ Unit :=
  if asserts = true ∧ ¬ p then stop else pure ()

def resultHeaderBytes (cmdCode : Byte) (cmdId : BitVec 32) (resCode : SctpResultCode)
    (resSize : BitVec 32) : List Byte :=
  bytes cmdCode ++ bytes cmdId ++ bytes resCode.code ++ bytes resSize

/-- `sctpCommand::writeResultHeader`. -/
def writeResultHeader (cmdCode : SctpCommandCode) (cmdId : BitVec 32) (resCode : SctpResultCode)
    (resSize : ℕ) : SctpM σ Unit :=
  write (resultHeaderBytes cmdCode.code cmdId resCode (BitVec.ofNat 32 resSize))

def addrsBytes (l : List ScAddr) : List Byte := l.flatMap bytes

variable (asserts : Bool) (calls : ServerCalls σ ι) (cmdId : BitVec 32)

def processCheckElement : SctpM σ SctpErrorCode := do
  let addr ← params (readParam ScAddr)
  let found ← call (calls.isElement addr)
  writeResultHeader .checkElement cmdId (if found then .ok else .fail) 0
  return .noError

def processGetElementType : SctpM σ SctpErrorCode := do
  let addr ← params (readParam ScAddr)
  match ← call (calls.getElementType addr) with
  | some type =>
    writeResultHeader .getElementType cmdId .ok 2
    write (bytes type)
  | none => writeResultHeader .getElementType cmdId .fail 0
  return .noError

def processElementErase : SctpM σ SctpErrorCode := do
  let addr ← params (readParam ScAddr)
  let erased ← call (calls.elementFree addr)
  writeResultHeader .eraseElement cmdId (if erased then .ok else .fail) 0
  return .noError

/-- The result of a command that makes an element; the third handler has the code of the second in one
place. -/
def writeNewElement (cmdCode failCode : SctpCommandCode) (addr : ScAddr) : SctpM σ SctpErrorCode := do
  if addr ≠ ScAddr.empty then
    writeResultHeader cmdCode cmdId .ok 4
    write (bytes addr)
    return .noError
  else
    writeResultHeader failCode cmdId .fail 0
    return .error

def processCreateNode : SctpM σ SctpErrorCode := do
  let type ← params (readParam ScType)
  let addr ← call (calls.nodeNew type)
  writeNewElement cmdId .createNode .createNode addr

def processCreateLink : SctpM σ SctpErrorCode := do
  let addr ← call calls.linkNew
  writeNewElement cmdId .createLink .createLink addr

def processCreateArc : SctpM σ SctpErrorCode := do
  let type ← params (readParam ScType)
  let beginAddr ← params (readParam ScAddr)
  let endAddr ← params (readParam ScAddr)
  let addr ← call (calls.arcNew type beginAddr endAddr)
  writeNewElement cmdId .createArc .createLink addr

def processGetArc : SctpM σ SctpErrorCode := do
  let arc ← params (readParam ScAddr)
  match ← call (calls.getArcBegin arc) with
  | none =>
    writeResultHeader .getArc cmdId .fail 0
    return .error
  | some begin_ =>
    match ← call (calls.getArcEnd arc) with
    | none =>
      writeResultHeader .getArc cmdId .fail 0
      return .error
    | some end_ =>
      writeResultHeader .getArc cmdId .ok (4*2)
      write (bytes begin_)
      write (bytes end_)
      return .noError

/-- `sc_stream_read_data` with 512 bytes of what is left. -/
def readData (stream : ScStream) (rest : List Byte) : Option (List Byte) :=
  if stream.readable = true ∧ stream.bytes ≠ [] then some (rest.take 512) else none

/-- The loop of `processGetLinkContent`. The result is the number of the bytes written. -/
def writeContent (stream : ScStream) (dataLen dataWritten : ℕ) : List Byte → SctpM σ ℕ
  | [] => pure dataWritten
  | b :: rest =>
    match readData stream (b :: rest) with
    | none => do
      if dataWritten < dataLen then
        write (List.replicate (dataLen-dataWritten) 0)
        exit .error
      else stop
    | some data => do
      write data
      writeContent stream dataLen (dataWritten+data.length) ((b :: rest).drop 512)
termination_by rest => rest.length

/-- Without a stream, as for a link without content, `sc_stream_get_length` stops the process. -/
def processGetLinkContent : SctpM σ SctpErrorCode := do
  let addr ← params (readParam ScAddr)
  match ← call (calls.getLinkContent addr) with
  | none =>
    writeResultHeader .getLinkContent cmdId .fail 0
    return .noError
  | some none => stop
  | some (some stream) =>
    let dataLen := stream.bytes.length
    writeResultHeader .getLinkContent cmdId .ok dataLen
    let dataWritten ← writeContent stream dataLen 0 stream.bytes
    qAssert asserts (dataWritten = dataLen)
    return .noError

/-- The content that four of the commands have at the end of their parameters. A negative length is one that
no memory can be had for. -/
def readContent : SctpM σ (List Byte) := do
  let dataLen ← params (readParam (BitVec 32))
  qAssert asserts (0 < dataLen.toInt)
  if dataLen.toInt < 0 then stop
  else
    let rest := (← get).params
    if rest.length < dataLen.toNat then exit .cmdReadParams
    else return rest.take dataLen.toNat

def processFindLinks : SctpM σ SctpErrorCode := do
  let data ← readContent asserts
  match ← call (calls.findLinksWithContent data) with
  | none => writeResultHeader .findLinks cmdId .fail 0
  | some result =>
    writeResultHeader .findLinks cmdId .ok (result.length*4+4)
    write (bytes (BitVec.ofNat 32 result.length))
    write (addrsBytes result)
  return .noError

def processSetLinkContent : SctpM σ SctpErrorCode := do
  let addr ← params (readParam ScAddr)
  let data ← readContent asserts
  let result ← call (calls.setLinkContent addr data)
  writeResultHeader .setLinkContent cmdId (if result then .ok else .fail) 0
  return .noError

/-- The values of a row, of three elements or of five. -/
def rowAddrs (count : ℕ) (row : ℕ → ScAddr) : List ScAddr := (List.range count).map row

def SctpIterator.argsCount : SctpIterator → ℕ
  | .f3_a_a _ _ _ => 3
  | .a3_a_f _ _ _ => 3
  | .f3_a_f _ _ _ => 3
  | _ => 5

/-- Without an iterator there is a result with a failure, and a second one of an iterator that has no
rows. -/
def processIterateElements : SctpM σ SctpErrorCode := do
  let iterator_type ← params (readParam Byte)
  qAssert asserts (iterator_type < sctpIteratorCount)
  match SctpIteratorType.ofCode iterator_type with
  | none => return .error
  | some type =>
    let it ← params (readIteratorArgs type)
    let found ← call (calls.iterate it)
    if found.isNone then writeResultHeader .iterateElements cmdId .fail 0
    let rows := found.getD []
    let results := addrsBytes (rows.flatMap (rowAddrs it.argsCount))
    writeResultHeader .iterateElements cmdId .ok (results.length+4)
    write (bytes (BitVec.ofNat 32 rows.length))
    write results
    return .noError

/-- `IterParam` without the union: of a type the code uses `type`, of an element `addr`. -/
structure IterParam where
  isType : Bool
  type : ScType
  addr : ScAddr
  repl : Byte

/-- `IteratorData`; no type stands for the values that are none of `eSctpIteratorType`. -/
structure IteratorData where
  type : Option SctpIteratorType
  repl : List Byte
  args : List IterParam

/-- The places of the given elements, in the order of `fixedPos`. -/
def fixedPositions : SctpIteratorType → List ℕ
  | .f3_a_a => [0]
  | .a3_a_f => [2]
  | .f3_a_f => [0, 2]
  | .f5_a_a_a_f => [0, 4]
  | .a5_a_f_a_f => [2, 4]
  | .f5_a_f_a_f => [0, 2, 4]
  | .f5_a_f_a_a => [0, 2]
  | .f5_a_a_a_a => [0]
  | .a5_a_f_a_a => [2]

def argsCount : Option SctpIteratorType → ℕ
  | some .f3_a_a | some .a3_a_f | some .f3_a_f => 3
  | some _ => 5
  | none => 0

def fixedCount (type : Option SctpIteratorType) : ℕ := (type.elim [] fixedPositions).length

/-- `readRawData` into a value: what is there is read, and the rest of the value stays. -/
def readRawData {α : Type} [Raw α] (old : α) (l : List Byte) : α × List Byte :=
  let read := l.take (Raw.size α)
  (ofBytes (read ++ (bytes old).drop read.length), l.drop (Raw.size α))

/-- `buildRepl` reads one byte for each given element. -/
def buildRepl (count : ℕ) (l : List Byte) : List Byte × List Byte :=
  let read := l.take count
  (read ++ List.replicate (5-read.length) 255, l.drop count)

/-- The loop of `buildParams` from the place `i` on; `rCount` elements have been before it. -/
def buildParams (fixed : List ℕ) (repl : List Byte) : ℕ → ℕ → ℕ → List Byte → List IterParam × List Byte
  | 0, _, _, l => ([], l)
  | n+1, i, rCount, l =>
    if i ∈ fixed then
      let r := repl.getD rCount 255
      let (addr, l) := if r ≠ 255 then (ScAddr.empty, l) else readRawData ScAddr.empty l
      let (args, l) := buildParams fixed repl n (i+1) (rCount+1) l
      (⟨false, 0, addr, r⟩ :: args, l)
    else
      let (type, l) := readRawData (0 : ScType) l
      let (args, l) := buildParams fixed repl n (i+1) rCount l
      (⟨true, type, ScAddr.empty, 255⟩ :: args, l)

/-- The loop of `IterConstsr::build`; nothing of the first iterator is replaced. -/
def buildIterators : ℕ → Bool → List Byte → Option (List IteratorData × List Byte)
  | 0, _, l => some ([], l)
  | n+1, first, l =>
    match read Byte l with
    | none => none
    | some (code, l) =>
      let type := SctpIteratorType.ofCode code
      let (repl, l) := buildRepl (if first then 0 else fixedCount type) l
      let (args, l) := buildParams (type.elim [] fixedPositions) repl (argsCount type) 0 0 l
      match buildIterators n false l with
      | none => none
      | some (its, l) => some (⟨type, repl, args⟩ :: its, l)

/-- `IterConstsr::build`. -/
def build (l : List Byte) : Option (List IteratorData) :=
  match read Byte l with
  | none => none
  | some (iterCount, l) =>
    if iterCount > 50 then none else (buildIterators iterCount.toNat true l).map Prod.fst

def oneResultSize (its : List IteratorData) : ℕ := (its.map fun it => argsCount it.type).sum

def IteratorData.argAddr (it : IteratorData) (i : ℕ) : ScAddr := (it.args[i]?.map IterParam.addr).getD
  ScAddr.empty

def IteratorData.argType (it : IteratorData) (i : ℕ) : ScType := (it.args[i]?.map IterParam.type).getD 0

/-- `startIterate`: the iterator of the memory. -/
def IteratorData.iterator (it : IteratorData) : Option SctpIterator :=
  it.type.map fun
    | .f3_a_a => .f3_a_a (it.argAddr 0) (it.argType 1) (it.argType 2)
    | .a3_a_f => .a3_a_f (it.argType 0) (it.argType 1) (it.argAddr 2)
    | .f3_a_f => .f3_a_f (it.argAddr 0) (it.argType 1) (it.argAddr 2)
    | .f5_a_a_a_f => .f5_a_a_a_f (it.argAddr 0) (it.argType 1) (it.argType 2) (it.argType 3)
        (it.argAddr 4)
    | .a5_a_f_a_f => .a5_a_f_a_f (it.argType 0) (it.argType 1) (it.argAddr 2) (it.argType 3)
        (it.argAddr 4)
    | .f5_a_f_a_f => .f5_a_f_a_f (it.argAddr 0) (it.argType 1) (it.argAddr 2) (it.argType 3)
        (it.argAddr 4)
    | .f5_a_f_a_a => .f5_a_f_a_a (it.argAddr 0) (it.argType 1) (it.argAddr 2) (it.argType 3)
        (it.argType 4)
    | .f5_a_a_a_a => .f5_a_a_a_a (it.argAddr 0) (it.argType 1) (it.argType 2) (it.argType 3)
        (it.argType 4)
    | .a5_a_f_a_a => .a5_a_f_a_a (it.argType 0) (it.argType 1) (it.argAddr 2) (it.argType 3)
        (it.argType 4)

/-- The replaced elements, from the results so far. Without assertions a place behind the results is still
outside of the memory. -/
def applyReplaces (asserts : Bool) (resultPos : ℕ) (result : List ScAddr) :
    List (ℕ × Byte) → List IterParam → Option (List IterParam)
  | [], args => some args
  | (pos, repl) :: rest, args =>
    if repl = 255 then applyReplaces asserts resultPos result rest args
    else if asserts = true ∧ ¬ repl.toNat < resultPos then none
    else
      match result[repl.toNat]? with
      | none => none
      | some addr =>
        if asserts = true ∧ addr = ScAddr.empty then none
        else applyReplaces asserts resultPos result rest (args.modify pos fun p => { p with addr := addr })

/-- What comes first in `iterateStep` and `generateStep`. -/
def enterStep (asserts first : Bool) (it : IteratorData) (resultPos : ℕ) (result : List ScAddr) :
    Option IteratorData :=
  if asserts = true ∧ ¬ resultPos < result.length then none
  else if first then some it
  else
    (applyReplaces asserts resultPos result ((it.type.elim [] fixedPositions).zip it.repl) it.args).map
      fun args => { it with args := args }

/-- `copyResults`. -/
def copyResults {β : Type} (count pos : ℕ) (row : ℕ → β) (result : List β) : List β :=
  (List.range count).foldl (fun result i => result.set (pos+i) (row i)) result

/-- More rounds than an iterator of the memory has rows: one for each pair of addresses at most. -/
def iterateRounds : ℕ := 2^64+1

/-- `iterateStep` for the iterators that are left: the results, and the vector of one result, which every
step writes into. A null pointer has no rows, and there is nothing to release. -/
def iterateStep (asserts : Bool) (calls : ServerCalls σ ι) : Bool → List IteratorData → ℕ → List ScAddr →
    List ScAddr → ServerCall σ (List ScAddr × List ScAddr)
  | _, [], _, _, _ => failure
  | first, it :: rest, resultPos, results, result =>
    match enterStep asserts first it resultPos result with
    | none => failure
    | some it =>
      match it.iterator with
      | none => pure (results, result)
      | some iterator => do
        match ← calls.iteratorNew iterator with
        | none => pure (results, result)
        | some iter =>
          let (acc, iter) ← whileNext failure calls.iteratorNext (fun row acc =>
            let result := copyResults (argsCount it.type) resultPos row acc.2
            if rest = [] then pure (acc.1 ++ result, result)
            else iterateStep asserts calls false rest (resultPos+argsCount it.type) acc.1 result)
            iterateRounds iter (results, result)
          calls.iteratorFree iter
          pure acc

/-- What `QVector` of results is at first. -/
def emptyResult (its : List IteratorData) : List ScAddr :=
  List.replicate (oneResultSize its) ScAddr.empty

/-- A result without any iterator or with iterators of no kind has no size to divide by. -/
def processIterateConstruction : SctpM σ SctpErrorCode := do
  match build (← get).params with
  | none => writeResultHeader .iterateConstruction cmdId .fail 0
  | some its =>
    let (results, _) ← call (iterateStep asserts calls true its 0 [] (emptyResult its))
    let stride := oneResultSize its
    if stride = 0 then stop
    else
      qAssert asserts (results.length % stride = 0)
      if results ≠ [] then
        writeResultHeader .iterateConstruction cmdId .ok (results.length*4+4)
        write (bytes (BitVec.ofNat 32 (results.length/stride)))
        write (addrsBytes results)
      else writeResultHeader .iterateConstruction cmdId .fail 0
  return .noError

/-- `generateNodeLink`. -/
def generateNodeLink (type : ScType) : ServerCall σ ScAddr :=
  if type &&& scTypeLink ≠ 0 then calls.linkNew
  else if type &&& scTypeNode ≠ 0 then calls.nodeNew type
  else fun mem => some (ScAddr.empty, mem)

/-- `IteratorData::generate`. A given element is not written into the result, so one of the two ends is
always missing there. -/
def generate (it : IteratorData) (pos : ℕ) (result : List ScAddr) : ServerCall σ (Bool × List ScAddr) :=
  fun mem =>
    if argsCount it.type = 3 then
      match (if it.type = some .a3_a_f then generateNodeLink calls (it.argType 0) mem
        else some (result.getD pos ScAddr.empty, mem)) with
      | none => none
      | some (begin_, mem) =>
        let result := result.set pos begin_
        if begin_ = ScAddr.empty then some ((false, result), mem)
        else
          match (if it.type = some .f3_a_a then generateNodeLink calls (it.argType 2) mem
            else some (result.getD (pos+2) ScAddr.empty, mem)) with
          | none => none
          | some (end_, mem) =>
            let result := result.set (pos+2) end_
            if end_ = ScAddr.empty then
              (calls.elementFree begin_ mem).map fun p => ((false, result.set pos ScAddr.empty), p.2)
            else
              (calls.arcNew (it.argType 1) begin_ end_ mem).map fun p =>
                ((decide (p.1 ≠ ScAddr.empty), result.set (pos+1) p.1), p.2)
    else some ((false, result), mem)

/-- `generateStep`; there is no end of the recursion behind the last iterator. -/
def generateStep (asserts : Bool) (calls : ServerCalls σ ι) :
    Bool → List IteratorData → ℕ → List ScAddr → ServerCall σ (Bool × List ScAddr)
  | _, [], _, _ => fun _ => none
  | first, it :: rest, resultPos, result => fun mem =>
    match enterStep asserts first it resultPos result with
    | none => none
    | some it =>
      match generate calls it resultPos result mem with
      | none => none
      | some ((false, result), mem) => some ((false, result), mem)
      | some ((true, result), mem) =>
        generateStep asserts calls false rest (resultPos+argsCount it.type) result mem

def processGenerateConstruction : SctpM σ SctpErrorCode := do
  match build (← get).params with
  | none => writeResultHeader .generateConstruction cmdId .fail 0
  | some its =>
    let (generated, result) ← call (generateStep asserts calls true its 0 (emptyResult its))
    if generated then
      writeResultHeader .generateConstruction cmdId .ok (result.length*4)
      write (addrsBytes result)
    else writeResultHeader .generateConstruction cmdId .fail 0
  return .noError

def processCreateEvent : SctpM σ SctpErrorCode := do
  let event_type ← params (readParam Byte)
  let addr ← params (readParam ScAddr)
  match ← call (calls.createEvent event_type addr) with
  | none =>
    writeResultHeader .eventCreate cmdId .fail 0
    return .error
  | some event =>
    if event ∈ (← get).eventsSet then return .error
    else
      modify fun s => { s with eventsSet := event :: s.eventsSet }
      writeResultHeader .eventCreate cmdId .ok 4
      write (bytes event)
      return .noError

def processDestroyEvent : SctpM σ SctpErrorCode := do
  let eventId ← params (readParam TEventId)
  if ← call (calls.destroyEvent eventId) then
    writeResultHeader .eventDestroy cmdId .ok 4
    write (bytes eventId)
    return .noError
  else
    writeResultHeader .eventDestroy cmdId .fail 0
    return .error

def processEmitEvent : SctpM σ SctpErrorCode := do
  let s ← get
  writeResultHeader .eventEmit cmdId .ok (4+s.sendData.length)
  write (bytes s.sendEventsCount)
  write s.sendData
  modify fun s => { s with sendData := [], sendEventsCount := 0 }
  return .noError

def processFindElementBySysIdtf : SctpM σ SctpErrorCode := do
  let data ← readContent asserts
  match ← call (calls.findElementBySystemIdentifier data) with
  | none => writeResultHeader .findElementBySysIdtf cmdId .fail 0
  | some result =>
    writeResultHeader .findElementBySysIdtf cmdId .ok 4
    write (bytes result)
  return .noError

def processSetSysIdtf : SctpM σ SctpErrorCode := do
  let addr ← params (readParam ScAddr)
  let data ← readContent asserts
  let result ← call (calls.setSystemIdentifier addr data)
  writeResultHeader .setSysIdtf cmdId (if result then .ok else .fail) 0
  return .noError

def processStatistics : SctpM σ SctpErrorCode := do
  let beginTime ← params (readParam (BitVec 64))
  let endTime ← params (readParam (BitVec 64))
  let stat ← call (calls.getStatisticsInTimeRange beginTime endTime)
  writeResultHeader .statistics cmdId .ok (4+72*stat.length)
  write (bytes (BitVec.ofNat 32 stat.length))
  write (stat.flatMap StatItem.data)
  return .noError

/-- The cases of the `switch` of `processCommand`. -/
def processCase : SctpCommandCode → SctpM σ SctpErrorCode
  | .checkElement => processCheckElement calls cmdId
  | .getElementType => processGetElementType calls cmdId
  | .eraseElement => processElementErase calls cmdId
  | .createNode => processCreateNode calls cmdId
  | .createLink => processCreateLink calls cmdId
  | .createArc => processCreateArc calls cmdId
  | .getArc => processGetArc calls cmdId
  | .getLinkContent => processGetLinkContent asserts calls cmdId
  | .findLinks => processFindLinks asserts calls cmdId
  | .setLinkContent => processSetLinkContent asserts calls cmdId
  | .iterateElements => processIterateElements asserts calls cmdId
  | .iterateConstruction => processIterateConstruction asserts calls cmdId
  | .generateConstruction => processGenerateConstruction asserts calls cmdId
  | .eventCreate => processCreateEvent calls cmdId
  | .eventDestroy => processDestroyEvent calls cmdId
  | .eventEmit => processEmitEvent cmdId
  | .findElementBySysIdtf => processFindElementBySysIdtf asserts calls cmdId
  | .setSysIdtf => processSetSysIdtf asserts calls cmdId
  | .statistics => processStatistics calls cmdId

/-- What is known after a command: its error code, the bytes written, and the bytes of the stream that are
left. -/
structure Processed (σ : Type) where
  errCode : SctpErrorCode
  out : List Byte
  rest : List Byte
  server : SctpServer σ

/-- `sctpCommand::processCommand`; without a result the process has stopped. -/
def processCommand (stream : List Byte) (s : SctpServer σ) : Option (Processed σ) :=
  match readCommand stream with
  | .error .cmdHeaderReadTimeout => some ⟨.cmdHeaderReadTimeout, [], stream, s⟩
  | .error e => some ⟨e, [], stream.drop cmdHeaderSize, s⟩
  | .ok (h, paramsData, rest) =>
    match SctpCommandCode.ofCode h.cmdCode with
    | none => some ⟨.unknownCmd, [], rest, s⟩
    | some cmdCode =>
      match processCase asserts calls h.cmdId cmdCode { s with params := paramsData, out := [] } with
      | .error .stop => none
      | .error (.exit e s') => some ⟨e, s'.out, rest, s'.toSctpServer⟩
      | .ok (e, s') => some ⟨e, s'.out, rest, s'.toSctpServer⟩

end

end ScMachine.Sctp
