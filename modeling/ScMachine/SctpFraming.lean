import ScMachine.SctpCommand
import ScMachine.StateExcept
import ScMachine.ElementFree

/-! Which commands are answered with one result, whose header announces as many bytes as follow it. -/
namespace ScMachine.Sctp
open ScMachine.Store ScMachine.WireFormat ScMachine.StateExcept ScMachine.Runs ScMachine.Enumeration

/-- One result for the command: a header with its code and id, and the announced bytes, none of them for a
failure. -/
def IsFrame (h : CommandHeader) (out : List Byte) : Prop :=
  ∃ (resCode : SctpResultCode) (resSize : BitVec 32) (payload : List Byte),
    out = resultHeaderBytes h.cmdCode h.cmdId resCode resSize ++ payload ∧
      payload.length = resSize.toNat ∧ (resCode ≠ .ok → resSize = 0)

/-- The command has been processed and one result for it has been written. -/
def OneFrame {σ : Type} (h : CommandHeader) (r : Option (Processed σ)) : Prop :=
  ∃ p, r = some p ∧ IsFrame h p.out

section
variable {σ ι α : Type}

/-- The parameters are read, and something holds of what has been read and of the rest. -/
def Parses (x : Params α) (l : List Byte) (P : α → List Byte → Prop) : Prop :=
  ∃ a rest, x l = some (a, rest) ∧ P a rest

/-- The call returns, and something holds of its result. -/
def Returns (x : ServerCall σ α) (mem : σ) (P : α → σ → Prop) : Prop :=
  ∃ a mem', x mem = some (a, mem') ∧ P a mem'

/-- The content at the end of the parameters is all there. -/
def HasContent (asserts : Bool) (l : List Byte) (P : List Byte → Prop) : Prop :=
  Parses (readParam (BitVec 32)) l fun dataLen rest =>
    (asserts = true → 0 < dataLen.toInt) ∧ 0 ≤ dataLen.toInt ∧ dataLen.toNat ≤ rest.length ∧
      P (rest.take dataLen.toNat)

/-- When a command with these parameters is answered: the parameters are long enough, no call stops the
process, a new arc can be made, the iterator exists, a link that is asked for has a content, and a new
subscription has an id that is not known yet. -/
def Answered (asserts : Bool) (calls : ServerCalls σ ι) (s : SctpServer σ) (l : List Byte) :
    SctpCommandCode → Prop
  | .checkElement => Parses (readParam ScAddr) l fun addr _ =>
      Returns (calls.isElement addr) s.mem fun _ _ => True
  | .getElementType => Parses (readParam ScAddr) l fun addr _ =>
      Returns (calls.getElementType addr) s.mem fun _ _ => True
  | .eraseElement => Parses (readParam ScAddr) l fun addr _ =>
      Returns (calls.elementFree addr) s.mem fun _ _ => True
  | .createNode => Parses (readParam ScType) l fun type _ =>
      Returns (calls.nodeNew type) s.mem fun _ _ => True
  | .createLink => Returns calls.linkNew s.mem fun _ _ => True
  | .createArc => Parses (readParam ScType) l fun type l => Parses (readParam ScAddr) l fun begin_ l =>
      Parses (readParam ScAddr) l fun end_ _ =>
        Returns (calls.arcNew type begin_ end_) s.mem fun addr _ => addr ≠ ScAddr.empty
  | .getArc => Parses (readParam ScAddr) l fun arc _ =>
      Returns (calls.getArcBegin arc) s.mem fun begin_ mem =>
        begin_.isSome → Returns (calls.getArcEnd arc) mem fun _ _ => True
  | .getLinkContent => Parses (readParam ScAddr) l fun addr _ =>
      Returns (calls.getLinkContent addr) s.mem fun found _ => found ≠ some none
  | .findLinks => HasContent asserts l fun data =>
      Returns (calls.findLinksWithContent data) s.mem fun found _ =>
        ∀ result, found = some result → result.length*4+4 < 2^32
  | .setLinkContent => Parses (readParam ScAddr) l fun addr l => HasContent asserts l fun data =>
      Returns (calls.setLinkContent addr data) s.mem fun _ _ => True
  | .iterateElements => Parses (readParam Byte) l fun code l =>
      ∃ type, SctpIteratorType.ofCode code = some type ∧
        Parses (readIteratorArgs type) l fun it _ =>
          Returns (calls.iterate it) s.mem fun found _ =>
            ∃ rows, found = some rows ∧ rows.length*it.argsCount*4+4 < 2^32
  | .iterateConstruction => ∀ its, build l = some its → oneResultSize its ≠ 0 ∧
      Returns (iterateStep asserts calls true its 0 [] (emptyResult its)) s.mem fun found _ =>
        found.1.length*4+4 < 2^32
  | .generateConstruction => ∀ its, build l = some its → ∃ it rest, its = it :: rest ∧
      (asserts = true → oneResultSize its ≠ 0) ∧
        Returns (generate calls it 0 (emptyResult its)) s.mem fun _ _ => True
  | .eventCreate => Parses (readParam Byte) l fun type l => Parses (readParam ScAddr) l fun addr _ =>
      Returns (calls.createEvent type addr) s.mem fun found _ =>
        ∀ event, found = some event → event ∉ s.eventsSet
  | .eventDestroy => Parses (readParam TEventId) l fun eventId _ =>
      Returns (calls.destroyEvent eventId) s.mem fun _ _ => True
  | .eventEmit => 4+s.sendData.length < 2^32
  | .findElementBySysIdtf => HasContent asserts l fun data =>
      Returns (calls.findElementBySystemIdentifier data) s.mem fun _ _ => True
  | .setSysIdtf => Parses (readParam ScAddr) l fun addr l => HasContent asserts l fun data =>
      Returns (calls.setSystemIdentifier addr data) s.mem fun _ _ => True
  | .statistics => Parses (readParam (BitVec 64)) l fun beginTime l =>
      Parses (readParam (BitVec 64)) l fun endTime _ =>
        Returns (calls.getStatisticsInTimeRange beginTime endTime) s.mem fun stat _ =>
          4+72*stat.length < 2^32

/-- All parameters have arrived, and there is a handler that answers. -/
structure RequestAnswered (asserts : Bool) (calls : ServerCalls σ ι) (s : SctpServer σ) (h : CommandHeader)
    (rest : List Byte) : Prop where
  arrived : h.cmdParamSize.toNat ≤ rest.length
  answered : ∃ c, SctpCommandCode.ofCode h.cmdCode = some c ∧
    Answered asserts calls s (rest.take (paramsDataSize h.cmdParamSize)) c

/-- What holds where a handler returns from the middle. -/
def HaltFrame (h : CommandHeader) : Halt σ → Prop
  | .exit _ s => IsFrame h s.out
  | .stop => False

section
variable {h : CommandHeader} {Q : α → SctpSession σ → Prop} {s : SctpSession σ}

theorem bytes_injective {β : Type} [Raw β] {a b : β} (he : bytes a = bytes b) : a = b := by
  rw [← Raw.ofBytes_bytes a, he, Raw.ofBytes_bytes]

theorem resCode_injective {r r' : SctpResultCode} (he : r.code = r'.code) : r = r' := by
  revert he
  cases r <;> cases r' <;> decide

theorem length_resultHeaderBytes (cmdCode : Byte) (cmdId : BitVec 32) (resCode : SctpResultCode)
    (resSize : BitVec 32) : (resultHeaderBytes cmdCode cmdId resCode resSize).length = 10 := by
  simp only [resultHeaderBytes, List.length_append, Raw.length_bytes]
  rfl

/-- A header and what follows it can be told apart. -/
theorem header_append_inj {c c' : Byte} {i i' : BitVec 32} {r r' : SctpResultCode} {z z' : BitVec 32}
    {l l' : List Byte} (he : resultHeaderBytes c i r z ++ l = resultHeaderBytes c' i' r' z' ++ l') :
    c = c' ∧ i = i' ∧ r = r' ∧ z = z' ∧ l = l' := by
  obtain ⟨hheader, hl⟩ := List.append_inj he (by simp only [length_resultHeaderBytes])
  unfold resultHeaderBytes at hheader
  obtain ⟨hcir, hz⟩ := List.append_inj' hheader (by simp only [Raw.length_bytes])
  obtain ⟨hci, hr⟩ := List.append_inj' hcir (by simp only [Raw.length_bytes])
  obtain ⟨hc, hi⟩ := List.append_inj' hci (by simp only [Raw.length_bytes])
  exact ⟨bytes_injective hc, bytes_injective hi, resCode_injective (bytes_injective hr),
    bytes_injective hz, hl⟩

theorem isFrame_header (cmdCode : Byte) (cmdId : BitVec 32) (resCode : SctpResultCode)
    (resSize : BitVec 32) (payload : List Byte) :
    IsFrame h (resultHeaderBytes cmdCode cmdId resCode resSize ++ payload) ↔
      cmdCode = h.cmdCode ∧ cmdId = h.cmdId ∧ payload.length = resSize.toNat ∧
        (resCode ≠ .ok → resSize = 0) := by
  constructor
  · rintro ⟨resCode', resSize', payload', he, hlen, hfail⟩
    obtain ⟨rfl, rfl, rfl, rfl, rfl⟩ := header_append_inj he
    exact ⟨rfl, rfl, hlen, hfail⟩
  · rintro ⟨rfl, rfl, hlen, hfail⟩
    exact ⟨resCode, resSize, payload, rfl, hlen, hfail⟩

theorem not_isFrame_nil : ¬ IsFrame h [] := by
  rintro ⟨resCode, resSize, payload, he, _⟩
  have hlen := congrArg List.length he
  rw [List.length_append, length_resultHeaderBytes, List.length_nil] at hlen
  omega

/-! What each step of a handler comes to. -/

@[simp] theorem wp_exit (errCode : SctpErrorCode) :
    Wp (exit errCode : SctpM σ α) Q (HaltFrame h) s ↔ IsFrame h s.out := Iff.rfl

@[simp] theorem wp_stop : Wp (stop : SctpM σ α) Q (HaltFrame h) s ↔ False := Iff.rfl

@[simp] theorem wp_write (l : List Byte) {Q : Unit → SctpSession σ → Prop} :
    Wp (write l) Q (HaltFrame h) s ↔ Q () { s with out := s.out ++ l } := Iff.rfl

@[simp] theorem wp_call (x : ServerCall σ α) : Wp (call x) Q (HaltFrame h) s ↔
    Returns x s.mem fun a mem => Q a { s with mem := mem } := by
  unfold Returns Wp call
  rcases hx : x s.mem with _ | ⟨a, mem⟩
  · simp [HaltFrame]
  · simp

/-- Before anything has been written, parameters that are too short leave the command without an answer. -/
theorem wp_params (x : Params α) (hout : s.out = []) : Wp (params x) Q (HaltFrame h) s ↔
    Parses x s.params fun a rest => Q a { s with params := rest } := by
  unfold Parses Wp params
  rcases hx : x s.params with _ | ⟨a, rest⟩
  · simp [HaltFrame, hout, not_isFrame_nil]
  · simp

@[simp] theorem wp_qAssert (asserts : Bool) (p : Prop) [Decidable p] {Q : Unit → SctpSession σ → Prop} :
    Wp (qAssert asserts p) Q (HaltFrame h) s ↔ (asserts = true → p) ∧ Q () s := by
  unfold qAssert
  rw [wp_ite, wp_stop, wp_pure]
  by_cases ha : asserts = true <;> by_cases hp : p <;> simp [ha, hp]

theorem parses_congr {x : Params α} {l : List Byte} {P P' : α → List Byte → Prop}
    (hP : ∀ a rest, P a rest ↔ P' a rest) : Parses x l P ↔ Parses x l P' := by
  unfold Parses
  simp only [hP]

theorem returns_congr {x : ServerCall σ α} {mem : σ} {P P' : α → σ → Prop}
    (hP : ∀ a mem', x mem = some (a, mem') → (P a mem' ↔ P' a mem')) :
    Returns x mem P ↔ Returns x mem P' := by
  unfold Returns
  constructor
  · rintro ⟨a, mem', hx, ha⟩
    exact ⟨a, mem', hx, (hP a mem' hx).mp ha⟩
  · rintro ⟨a, mem', hx, ha⟩
    exact ⟨a, mem', hx, (hP a mem' hx).mpr ha⟩

@[simp] theorem wp_writeResultHeader (cmdCode : SctpCommandCode) (cmdId : BitVec 32)
    (resCode : SctpResultCode) (n : ℕ) {Q : Unit → SctpSession σ → Prop} :
    Wp (writeResultHeader cmdCode cmdId resCode n) Q (HaltFrame h) s ↔
      Q () { s with
        out := s.out ++ resultHeaderBytes cmdCode.code cmdId resCode (BitVec.ofNat 32 n) } := Iff.rfl

/-- The content is read before anything is written. -/
theorem wp_readContent (asserts : Bool) (hout : s.out = []) {Q : List Byte → SctpSession σ → Prop} :
    Wp (readContent asserts) Q (HaltFrame h) s ↔ Parses (readParam (BitVec 32)) s.params
      fun dataLen rest => (asserts = true → 0 < dataLen.toInt) ∧ 0 ≤ dataLen.toInt ∧
        dataLen.toNat ≤ rest.length ∧ Q (rest.take dataLen.toNat) { s with params := rest } := by
  unfold readContent
  rw [wp_bind, wp_params _ hout]
  refine parses_congr fun dataLen rest => ?_
  rw [wp_bind, wp_qAssert, wp_ite, wp_stop, wp_bind, wp_get]
  dsimp only
  rw [wp_ite, wp_exit, wp_pure]
  have hnil : IsFrame h s.out ↔ False := by simp [hout, not_isFrame_nil]
  simp only [hnil, not_lt, imp_false]
  tauto

section
variable {c : SctpCommandCode} (hcode : c.code = h.cmdCode)
include hcode

/-- A result without a payload. -/
theorem isFrame_alone (resCode : SctpResultCode) :
    IsFrame h (resultHeaderBytes c.code h.cmdId resCode (BitVec.ofNat 32 0)) :=
  ⟨resCode, BitVec.ofNat 32 0, [], by rw [hcode, List.append_nil], rfl, fun _ => rfl⟩

/-- A result with the announced payload. -/
theorem isFrame_payload (n : ℕ) (payload : List Byte) :
    IsFrame h (resultHeaderBytes c.code h.cmdId .ok (BitVec.ofNat 32 n) ++ payload) ↔
      payload.length = n % 2^32 := by
  rw [isFrame_header, BitVec.toNat_ofNat]
  simp [hcode]

/-- A handler that ends with such a result. -/
theorem writeAlone_frames (resCode : SctpResultCode) (errCode : SctpErrorCode) {s : SctpSession σ}
    (hout : s.out = []) : Wp (do writeResultHeader c h.cmdId resCode 0; return errCode)
      (fun _ s => IsFrame h s.out) (HaltFrame h) s := by
  rw [wp_bind, wp_writeResultHeader, wp_pure, hout, List.nil_append]
  exact isFrame_alone hcode resCode

theorem isFrame_fits {n : ℕ} {payload : List Byte} (hlen : payload.length = n) :
    IsFrame h (resultHeaderBytes c.code h.cmdId .ok (BitVec.ofNat 32 n) ++ payload) ↔ n < 2^32 := by
  rw [isFrame_payload hcode, hlen]
  exact ⟨fun he => he ▸ Nat.mod_lt _ (by decide), fun hlt => (Nat.mod_eq_of_lt hlt).symm⟩

end

/-- The handler of the code writes one result. -/
def CaseFrames (h : CommandHeader) (asserts : Bool) (calls : ServerCalls σ ι) (c : SctpCommandCode)
    (server : SctpServer σ) (l : List Byte) : Prop :=
  Wp (processCase asserts calls h.cmdId c) (fun _ s => IsFrame h s.out) (HaltFrame h)
    { server with params := l, out := [] }

variable (asserts : Bool) (calls : ServerCalls σ ι) (server : SctpServer σ) (l : List Byte)

theorem checkElement_frames (hcode : SctpCommandCode.checkElement.code = h.cmdCode) :
    CaseFrames h asserts calls .checkElement server l ↔ Answered asserts calls server l .checkElement := by
  unfold CaseFrames processCase processCheckElement Answered
  rw [wp_bind, wp_params _ rfl]
  refine parses_congr fun addr rest => ?_
  simp only [wp_bind, wp_call, wp_writeResultHeader, wp_pure, List.nil_append, isFrame_alone hcode]

theorem getElementType_frames (hcode : SctpCommandCode.getElementType.code = h.cmdCode) :
    CaseFrames h asserts calls .getElementType server l ↔
      Answered asserts calls server l .getElementType := by
  unfold CaseFrames processCase processGetElementType Answered
  rw [wp_bind, wp_params _ rfl]
  refine parses_congr fun addr rest => ?_
  rw [wp_bind, wp_call]
  refine returns_congr fun found mem _ => ?_
  cases found with
  | none => exact iff_of_true (writeAlone_frames hcode .fail .noError rfl) trivial
  | some type =>
    have hlen : (bytes type).length = 2 := Raw.length_bytes type
    simp only [wp_bind, wp_writeResultHeader, wp_write, wp_pure, List.nil_append]
    rw [isFrame_fits hcode hlen]
    decide

theorem eraseElement_frames (hcode : SctpCommandCode.eraseElement.code = h.cmdCode) :
    CaseFrames h asserts calls .eraseElement server l ↔ Answered asserts calls server l .eraseElement := by
  unfold CaseFrames processCase processElementErase Answered
  rw [wp_bind, wp_params _ rfl]
  refine parses_congr fun addr rest => ?_
  simp only [wp_bind, wp_call, wp_writeResultHeader, wp_pure, List.nil_append, isFrame_alone hcode]

/-- The result for a new element is one for the command when the failure has its code too, or there is
none. -/
theorem writeNewElement_frames {c failCode : SctpCommandCode} (hcode : c.code = h.cmdCode) (addr : ScAddr)
    (hout : s.out = []) :
    Wp (writeNewElement h.cmdId c failCode addr) (fun _ s => IsFrame h s.out) (HaltFrame h) s ↔
      (addr = ScAddr.empty → failCode.code = h.cmdCode) := by
  unfold writeNewElement
  rw [wp_ite]
  simp only [wp_bind, wp_writeResultHeader, wp_write, wp_pure, hout, List.nil_append]
  have hlen : (bytes addr).length = 4 := Raw.length_bytes addr
  rw [isFrame_fits hcode hlen]
  have hfail : IsFrame h (resultHeaderBytes failCode.code h.cmdId .fail (BitVec.ofNat 32 0)) ↔
      failCode.code = h.cmdCode := by
    have hheader := isFrame_header (h := h) failCode.code h.cmdId .fail (BitVec.ofNat 32 0) []
    rw [List.append_nil] at hheader
    rw [hheader]
    simp
  rw [hfail]
  simp

theorem createNode_frames (hcode : SctpCommandCode.createNode.code = h.cmdCode) :
    CaseFrames h asserts calls .createNode server l ↔ Answered asserts calls server l .createNode := by
  unfold CaseFrames processCase processCreateNode Answered
  rw [wp_bind, wp_params _ rfl]
  refine parses_congr fun type rest => ?_
  simp only [wp_bind, wp_call, writeNewElement_frames hcode, hcode, implies_true]

theorem createLink_frames (hcode : SctpCommandCode.createLink.code = h.cmdCode) :
    CaseFrames h asserts calls .createLink server l ↔ Answered asserts calls server l .createLink := by
  unfold CaseFrames processCase processCreateLink Answered
  simp only [wp_bind, wp_call, writeNewElement_frames hcode, hcode, implies_true]

theorem createArc_frames (hcode : SctpCommandCode.createArc.code = h.cmdCode) :
    CaseFrames h asserts calls .createArc server l ↔ Answered asserts calls server l .createArc := by
  have hother : ¬ SctpCommandCode.createLink.code = h.cmdCode := by
    rw [← hcode]
    decide
  unfold CaseFrames processCase processCreateArc Answered
  rw [wp_bind, wp_params _ rfl]
  refine parses_congr fun type rest => ?_
  rw [wp_bind, wp_params _ rfl]
  refine parses_congr fun begin_ rest => ?_
  rw [wp_bind, wp_params _ rfl]
  refine parses_congr fun end_ rest => ?_
  simp only [wp_bind, wp_call, writeNewElement_frames hcode, hother, imp_false, ne_eq]

theorem getArc_frames (hcode : SctpCommandCode.getArc.code = h.cmdCode) :
    CaseFrames h asserts calls .getArc server l ↔ Answered asserts calls server l .getArc := by
  unfold CaseFrames processCase processGetArc Answered
  rw [wp_bind, wp_params _ rfl]
  refine parses_congr fun arc rest => ?_
  rw [wp_bind, wp_call]
  refine returns_congr fun found mem _ => ?_
  cases found with
  | none => exact iff_of_true (writeAlone_frames hcode .fail .error rfl) (by simp)
  | some begin_ =>
    simp only [wp_bind, wp_call, Option.isSome_some, forall_const]
    refine returns_congr fun found mem _ => ?_
    cases found with
    | none => exact iff_of_true (writeAlone_frames hcode .fail .error rfl) trivial
    | some end_ =>
      have hlen : (bytes begin_ ++ bytes end_).length = 4*2 := by
        rw [List.length_append, Raw.length_bytes, Raw.length_bytes]
        rfl
      simp only [wp_bind, wp_writeResultHeader, wp_write, wp_pure, List.nil_append, List.append_assoc]
      rw [isFrame_fits hcode hlen]
      decide

theorem length_addrsBytes (addrs : List ScAddr) : (addrsBytes addrs).length = addrs.length*4 := by
  have hlen (a : ScAddr) : (bytes a).length = 4 := Raw.length_bytes a
  unfold addrsBytes
  rw [List.length_flatMap]
  simp [hlen]

theorem findLinks_frames (hcode : SctpCommandCode.findLinks.code = h.cmdCode) :
    CaseFrames h asserts calls .findLinks server l ↔ Answered asserts calls server l .findLinks := by
  unfold CaseFrames processCase processFindLinks Answered HasContent
  rw [wp_bind, wp_readContent _ rfl]
  refine parses_congr fun dataLen rest => and_congr_right fun _ => and_congr_right fun _ =>
    and_congr_right fun _ => ?_
  rw [wp_bind, wp_call]
  refine returns_congr fun found mem _ => ?_
  cases found with
  | none => exact iff_of_true (writeAlone_frames hcode .fail .noError rfl) (by simp)
  | some result =>
    have hlen : (bytes (BitVec.ofNat 32 result.length) ++ addrsBytes result).length =
        result.length*4+4 := by
      rw [List.length_append, Raw.length_bytes, length_addrsBytes, Nat.add_comm]
      rfl
    simp only [wp_bind, wp_writeResultHeader, wp_write, wp_pure, List.nil_append, List.append_assoc]
    rw [isFrame_fits hcode hlen]
    simp

theorem setLinkContent_frames (hcode : SctpCommandCode.setLinkContent.code = h.cmdCode) :
    CaseFrames h asserts calls .setLinkContent server l ↔
      Answered asserts calls server l .setLinkContent := by
  unfold CaseFrames processCase processSetLinkContent Answered HasContent
  rw [wp_bind, wp_params _ rfl]
  refine parses_congr fun addr rest => ?_
  rw [wp_bind, wp_readContent _ rfl]
  refine parses_congr fun dataLen rest => and_congr_right fun _ => and_congr_right fun _ =>
    and_congr_right fun _ => ?_
  simp only [wp_bind, wp_call, wp_writeResultHeader, wp_pure, List.nil_append, isFrame_alone hcode]

/-- The loop writes as many bytes as the stream has, or zeros in their place. -/
theorem writeContent_frames (stream : ScStream) (dataLen dataWritten : ℕ) (rest : List Byte)
    (s : SctpSession σ) (hlen : dataWritten+rest.length = dataLen)
    (hframe : ∀ data : List Byte, data.length = rest.length → IsFrame h (s.out ++ data)) :
    Wp (writeContent stream dataLen dataWritten rest) (fun n s => n = dataLen ∧ IsFrame h s.out)
      (HaltFrame h) s := by
  fun_induction writeContent stream dataLen dataWritten rest generalizing s with
  | case1 dataWritten =>
    have hnil := hframe [] rfl
    rw [List.append_nil] at hnil
    exact ⟨by simpa using hlen, hnil⟩
  | case2 dataWritten b rest hread hless =>
    rw [wp_bind, wp_write, wp_exit]
    apply hframe
    rw [List.length_replicate]
    omega
  | case3 dataWritten b rest hread hless =>
    -- as long as bytes are left, not all of them have been written
    rw [List.length_cons] at hlen
    omega
  | case4 dataWritten b rest data hread ih =>
    have hdata : data = (b :: rest).take 512 := by
      unfold readData at hread
      split_ifs at hread with hreadable
      exact (Option.some.inj hread).symm
    subst hdata
    rw [wp_bind, wp_write]
    apply ih
    · rw [List.length_take, List.length_drop]
      omega
    · intro data hlen'
      rw [List.append_assoc]
      apply hframe
      rw [List.length_append, hlen', List.length_take, List.length_drop]
      omega

theorem getLinkContent_frames (hcode : SctpCommandCode.getLinkContent.code = h.cmdCode) :
    CaseFrames h asserts calls .getLinkContent server l ↔
      Answered asserts calls server l .getLinkContent := by
  unfold CaseFrames processCase processGetLinkContent Answered
  rw [wp_bind, wp_params _ rfl]
  refine parses_congr fun addr rest => ?_
  rw [wp_bind, wp_call]
  refine returns_congr fun found mem _ => ?_
  match found with
  | none => exact iff_of_true (writeAlone_frames hcode .fail .noError rfl) (by simp)
  | some none => exact iff_of_false (fun hstop => hstop) (by simp)
  | some (some stream) =>
    refine iff_of_true ?_ (by simp)
    rw [wp_bind, wp_writeResultHeader, wp_bind]
    refine wp_mono (writeContent_frames stream _ 0 stream.bytes _ (Nat.zero_add _) ?_) ?_ (fun _ he => he)
    · intro data hlen
      exact (isFrame_fits hcode hlen).mpr stream.length_lt
    · rintro n s ⟨hn, hs⟩
      rw [wp_bind, wp_qAssert]
      exact ⟨fun _ => hn, hs⟩

theorem argsCount_rows (it : SctpIterator) (rows : List (ℕ → ScAddr)) :
    (addrsBytes (rows.flatMap (rowAddrs it.argsCount))).length = rows.length*it.argsCount*4 := by
  have hrow (row : ℕ → ScAddr) : (rowAddrs it.argsCount row).length = it.argsCount := by simp [rowAddrs]
  rw [length_addrsBytes, List.length_flatMap]
  simp [hrow]

theorem iterateElements_frames (hcode : SctpCommandCode.iterateElements.code = h.cmdCode) :
    CaseFrames h asserts calls .iterateElements server l ↔
      Answered asserts calls server l .iterateElements := by
  unfold CaseFrames processCase processIterateElements Answered
  rw [wp_bind, wp_params _ rfl]
  refine parses_congr fun code rest => ?_
  rw [wp_bind, wp_qAssert]
  cases htype : SctpIteratorType.ofCode code with
  | none =>
    refine iff_of_false (fun hno => not_isFrame_nil hno.2) ?_
    rintro ⟨type, he, _⟩
    cases he
  | some type =>
    have hlt : code < sctpIteratorCount := by
      have hfound := List.find?_some htype
      rw [← eq_of_beq hfound]
      cases type <;> decide
    simp only [hlt, implies_true, true_and, Option.some.injEq, exists_eq_left']
    rw [wp_bind, wp_params _ rfl]
    refine parses_congr fun it rest => ?_
    rw [wp_bind, wp_call]
    refine returns_congr fun found mem _ => ?_
    cases found with
    | none =>
      -- a failure, and a second result behind it
      simp only [Option.isNone_none, if_true, wp_bind, wp_writeResultHeader, wp_write, wp_pure,
        List.nil_append, List.append_assoc]
      refine iff_of_false (fun hframe => ?_) (by simp)
      have hlen := ((isFrame_header _ _ _ _ _).mp hframe).2.2.1
      rw [List.length_append, length_resultHeaderBytes] at hlen
      simp at hlen
    | some rows =>
      have hlen : (bytes (BitVec.ofNat 32 rows.length) ++
          addrsBytes (rows.flatMap (rowAddrs it.argsCount))).length =
            (addrsBytes (rows.flatMap (rowAddrs it.argsCount))).length+4 := by
        rw [List.length_append, Raw.length_bytes, Nat.add_comm]
        rfl
      simp only [Option.isNone_some, Bool.false_eq_true, if_false, wp_bind, wp_writeResultHeader, wp_write,
        wp_pure, List.nil_append, List.append_assoc, Option.getD_some]
      rw [isFrame_fits hcode hlen, argsCount_rows]
      simp

theorem length_copyResults (count pos : ℕ) (row : ℕ → ScAddr) (result : List ScAddr) :
    (copyResults count pos row result).length = result.length := by
  unfold copyResults
  generalize List.range count = places
  induction places generalizing result with
  | nil => rfl
  | cons i places ih => rw [List.foldl_cons, ih, List.length_set]

/-- What comes of two calls one after the other. -/
theorem bind_some {β : Type} {x : ServerCall σ α} {f : α → ServerCall σ β} {mem : σ} {r : β × σ} :
    (x >>= f) mem = some r ↔ ∃ a mem', x mem = some (a, mem') ∧ f a mem' = some r := by
  have hrun : (x >>= f) mem = (x mem).bind fun p => f p.1 p.2 := rfl
  rw [hrun, Option.bind_eq_some_iff]
  exact ⟨fun ⟨p, hp, hr⟩ => ⟨p.1, p.2, hp, hr⟩, fun ⟨a, mem', hx, hr⟩ => ⟨(a, mem'), hx, hr⟩⟩

/-- What every round of a loop keeps. -/
theorem whileNext_keeps {β : Type} {P : α → Prop} {next : ι → ServerCall σ (Option β × ι)}
    {body : β → α → ServerCall σ α} (hbody : ∀ y acc mem r, P acc → body y acc mem = some r → P r.1)
    (rounds : ℕ) (it : ι) (acc : α) (mem : σ) (r : (α × ι) × σ) (h : P acc)
    (hrun : whileNext failure next body rounds it acc mem = some r) : P r.1.1 := by
  induction rounds generalizing it acc mem with
  | zero => cases hrun
  | succ rounds ih =>
    unfold whileNext at hrun
    obtain ⟨⟨found, it'⟩, mem', _, hrest⟩ := bind_some.mp hrun
    cases found with
    | none =>
      cases hrest
      exact h
    | some y =>
      obtain ⟨acc', mem2, hround, hrest⟩ := bind_some.mp hrest
      exact ih it' acc' mem2 (hbody y acc mem' _ h hround) hrest

/-- The results are put together from whole results. -/
theorem iterateStep_length (its : List IteratorData) (first : Bool) (resultPos n : ℕ)
    (results result : List ScAddr) (mem : σ) (r : (List ScAddr × List ScAddr) × σ)
    (hresult : result.length = n) (hresults : n ∣ results.length)
    (hrun : iterateStep asserts calls first its resultPos results result mem = some r) :
    r.1.2.length = n ∧ n ∣ r.1.1.length := by
  induction its generalizing first resultPos results result mem r with
  | nil => cases hrun
  | cons it rest ih =>
    unfold iterateStep at hrun
    cases henter : enterStep asserts first it resultPos result with
    | none =>
      rw [henter] at hrun
      cases hrun
    | some it =>
      rw [henter] at hrun
      dsimp only at hrun
      cases hiter : it.iterator with
      | none =>
        rw [hiter] at hrun
        cases hrun
        exact ⟨hresult, hresults⟩
      | some iterator =>
        rw [hiter] at hrun
        obtain ⟨found, mem1, _, hrest⟩ := bind_some.mp hrun
        cases found with
        | none =>
          cases hrest
          exact ⟨hresult, hresults⟩
        | some iter =>
          obtain ⟨⟨acc, iter'⟩, mem2, hloop, hrest⟩ := bind_some.mp hrest
          obtain ⟨_, mem3, _, hrest⟩ := bind_some.mp hrest
          cases hrest
          refine whileNext_keeps (P := fun acc => acc.2.length = n ∧ n ∣ acc.1.length) ?_ _ _ _ _ _
            ⟨hresult, hresults⟩ hloop
          rintro row acc mem r ⟨hlen, hdvd⟩ hround
          have hcopy : (copyResults (argsCount it.type) resultPos row acc.2).length = n :=
            (length_copyResults _ _ _ _).trans hlen
          split_ifs at hround with hlast
          · cases hround
            refine ⟨hcopy, ?_⟩
            rw [List.length_append, hcopy]
            exact dvd_add hdvd dvd_rfl
          · exact ih false _ _ _ _ r hcopy hdvd hround

theorem iterateConstruction_frames (hcode : SctpCommandCode.iterateConstruction.code = h.cmdCode) :
    CaseFrames h asserts calls .iterateConstruction server l ↔
      Answered asserts calls server l .iterateConstruction := by
  unfold CaseFrames processCase processIterateConstruction Answered
  rw [wp_bind, wp_get]
  dsimp only
  cases hbuild : build l with
  | none => exact iff_of_true (writeAlone_frames hcode .fail .noError rfl) (by simp)
  | some its =>
    simp only [Option.some.injEq, forall_eq']
    rw [wp_bind, wp_call]
    by_cases hstride : oneResultSize its = 0
    · refine iff_of_false ?_ (fun hno => hno.1 hstride)
      rintro ⟨found, mem, _, hstop⟩
      simp only [hstride, if_true] at hstop
      exact hstop
    simp only [hstride, if_false, ne_eq, not_false_eq_true, true_and]
    refine returns_congr fun found mem hrun => ?_
    have hdvd := (iterateStep_length asserts calls its true 0 (oneResultSize its) [] _ _ _
      (List.length_replicate ..) (dvd_zero _) hrun).2
    have hmod : found.1.length % oneResultSize its = 0 := Nat.mod_eq_zero_of_dvd hdvd
    simp only [wp_bind, wp_qAssert, hmod, implies_true, true_and]
    by_cases hnil : found.1 = []
    · simp only [hnil, not_true_eq_false, if_false]
      exact iff_of_true (writeAlone_frames hcode .fail .noError rfl) (by simp)
    · have hlen : (bytes (BitVec.ofNat 32 (found.1.length/oneResultSize its)) ++
          addrsBytes found.1).length = found.1.length*4+4 := by
        rw [List.length_append, Raw.length_bytes, length_addrsBytes, Nat.add_comm]
        rfl
      simp only [hnil, not_false_eq_true, if_true, wp_bind, wp_writeResultHeader, wp_write, wp_pure,
        List.nil_append, List.append_assoc]
      exact isFrame_fits hcode hlen

/-- A construction is never generated: one end of the first arc is always missing. -/
theorem generate_false (it : IteratorData) (n pos : ℕ) (mem : σ) (r : (Bool × List ScAddr) × σ)
    (hrun : generate calls it pos (List.replicate n ScAddr.empty) mem = some r) : r.1.1 = false := by
  have hempty (i : ℕ) : (List.replicate n ScAddr.empty).getD i ScAddr.empty = ScAddr.empty := by
    rw [List.getD_eq_getElem?_getD, List.getElem?_replicate]
    split_ifs <;> rfl
  unfold generate at hrun
  by_cases hcount : argsCount it.type = 3
  · rw [if_pos hcount] at hrun
    by_cases hbegin : it.type = some .a3_a_f
    · have hend : ¬ it.type = some .f3_a_a := by simp [hbegin]
      rw [if_pos hbegin] at hrun
      rcases hnew : generateNodeLink calls (it.argType 0) mem with _ | ⟨begin_, mem'⟩
      · simp [hnew] at hrun
      -- the place of the other end has not been written to
      have hplace : ((List.replicate n ScAddr.empty).set pos begin_).getD (pos+2) ScAddr.empty =
          ScAddr.empty := by
        rw [List.getD_eq_getElem?_getD, List.getElem?_set_ne (by omega), ← List.getD_eq_getElem?_getD]
        exact hempty (pos+2)
      simp only [hnew, hend, if_false, hplace, if_true] at hrun
      by_cases hmissing : begin_ = ScAddr.empty
      · rw [if_pos hmissing] at hrun
        cases hrun
        rfl
      · rw [if_neg hmissing] at hrun
        obtain ⟨p, _, rfl⟩ := Option.map_eq_some_iff.mp hrun
        rfl
    · simp only [hbegin, if_false, hempty, if_true] at hrun
      cases hrun
      rfl
  · rw [if_neg hcount] at hrun
    cases hrun
    rfl

/-- The first step is also the last one. -/
theorem generateStep_eq (it : IteratorData) (rest : List IteratorData) (mem : σ)
    (hsize : ¬ (asserts = true ∧ ¬ 0 < (emptyResult (it :: rest)).length)) :
    generateStep asserts calls true (it :: rest) 0 (emptyResult (it :: rest)) mem =
      generate calls it 0 (emptyResult (it :: rest)) mem := by
  unfold generateStep enterStep
  rw [if_neg hsize, if_pos rfl]
  dsimp only
  rcases hrun : generate calls it 0 (emptyResult (it :: rest)) mem with _ | ⟨⟨generated, result⟩, mem'⟩
  · rfl
  · have hfalse : generated = false := generate_false calls it _ 0 mem _ hrun
    subst hfalse
    rfl

theorem generateConstruction_frames (hcode : SctpCommandCode.generateConstruction.code = h.cmdCode) :
    CaseFrames h asserts calls .generateConstruction server l ↔
      Answered asserts calls server l .generateConstruction := by
  unfold CaseFrames processCase processGenerateConstruction Answered
  rw [wp_bind, wp_get]
  dsimp only
  cases hbuild : build l with
  | none => exact iff_of_true (writeAlone_frames hcode .fail .noError rfl) (by simp)
  | some its =>
    simp only [Option.some.injEq, forall_eq']
    rw [wp_bind, wp_call]
    cases its with
    | nil =>
      refine iff_of_false ?_ (by simp)
      rintro ⟨r, mem, hrun, _⟩
      cases hrun
    | cons it rest =>
      have hpos : 0 < (emptyResult (it :: rest)).length ↔ oneResultSize (it :: rest) ≠ 0 := by
        rw [emptyResult, List.length_replicate, Nat.pos_iff_ne_zero]
      by_cases hsize : asserts = true ∧ ¬ 0 < (emptyResult (it :: rest)).length
      · refine iff_of_false ?_ ?_
        · rintro ⟨r, mem, hrun, _⟩
          unfold generateStep enterStep at hrun
          rw [if_pos hsize] at hrun
          cases hrun
        · rintro ⟨it', rest', _, hasserts, _⟩
          exact hsize.2 (hpos.mpr (hasserts hsize.1))
      · have hasserts : asserts = true → oneResultSize (it :: rest) ≠ 0 :=
          fun ha => hpos.mp (not_not.mp fun hno => hsize ⟨ha, hno⟩)
        have hfirst : (∃ it' rest', it :: rest = it' :: rest' ∧
            (asserts = true → oneResultSize (it :: rest) ≠ 0) ∧
              Returns (generate calls it' 0 (emptyResult (it :: rest))) server.mem fun _ _ => True) ↔
            Returns (generate calls it 0 (emptyResult (it :: rest))) server.mem fun _ _ => True := by
          constructor
          · rintro ⟨it', rest', he, _, hreturns⟩
            cases he
            exact hreturns
          · exact fun hreturns => ⟨it, rest, rfl, hasserts, hreturns⟩
        rw [hfirst]
        have heq : Returns (generateStep asserts calls true (it :: rest) 0 (emptyResult (it :: rest)))
            server.mem = Returns (generate calls it 0 (emptyResult (it :: rest))) server.mem := by
          funext P
          unfold Returns
          rw [generateStep_eq asserts calls it rest server.mem hsize]
        rw [heq]
        refine returns_congr fun r mem hrun => iff_of_true ?_ trivial
        have hfalse : r.1 = false := generate_false calls it _ 0 server.mem (r, mem) hrun
        simp only [hfalse, Bool.false_eq_true, if_false]
        exact writeAlone_frames hcode .fail .noError rfl

theorem eventCreate_frames (hcode : SctpCommandCode.eventCreate.code = h.cmdCode) :
    CaseFrames h asserts calls .eventCreate server l ↔ Answered asserts calls server l .eventCreate := by
  unfold CaseFrames processCase processCreateEvent Answered
  rw [wp_bind, wp_params _ rfl]
  refine parses_congr fun type rest => ?_
  rw [wp_bind, wp_params _ rfl]
  refine parses_congr fun addr rest => ?_
  rw [wp_bind, wp_call]
  refine returns_congr fun found mem _ => ?_
  cases found with
  | none => exact iff_of_true (writeAlone_frames hcode .fail .error rfl) (by simp)
  | some event =>
    have hlen : (bytes event).length = 4 := Raw.length_bytes event
    have hframe : IsFrame h (resultHeaderBytes SctpCommandCode.eventCreate.code h.cmdId .ok
        (BitVec.ofNat 32 4) ++ bytes event) := (isFrame_fits hcode hlen).mpr (by decide)
    rw [wp_bind, wp_get]
    dsimp only
    rw [wp_ite]
    simp only [wp_bind, wp_modify, wp_writeResultHeader, wp_write, wp_pure, List.nil_append, hframe,
      not_isFrame_nil, Option.some.injEq, forall_eq', imp_false, implies_true, and_true]

theorem eventDestroy_frames (hcode : SctpCommandCode.eventDestroy.code = h.cmdCode) :
    CaseFrames h asserts calls .eventDestroy server l ↔ Answered asserts calls server l .eventDestroy := by
  unfold CaseFrames processCase processDestroyEvent Answered
  rw [wp_bind, wp_params _ rfl]
  refine parses_congr fun eventId rest => ?_
  rw [wp_bind, wp_call]
  refine returns_congr fun destroyed mem _ => ?_
  have hlen : (bytes eventId).length = 4 := Raw.length_bytes eventId
  refine iff_of_true ?_ trivial
  rw [wp_ite]
  refine ⟨fun _ => ?_, fun _ => writeAlone_frames hcode .fail .error rfl⟩
  simp only [wp_bind, wp_writeResultHeader, wp_write, wp_pure, List.nil_append]
  exact (isFrame_fits hcode hlen).mpr (by decide)

theorem eventEmit_frames (hcode : SctpCommandCode.eventEmit.code = h.cmdCode) :
    CaseFrames h asserts calls .eventEmit server l ↔ Answered asserts calls server l .eventEmit := by
  have hlen : (bytes server.sendEventsCount ++ server.sendData).length = 4+server.sendData.length := by
    rw [List.length_append, Raw.length_bytes]
    rfl
  unfold CaseFrames processCase processEmitEvent Answered
  simp only [wp_bind, wp_get, wp_modify, wp_writeResultHeader, wp_write, wp_pure, List.nil_append,
    List.append_assoc]
  exact isFrame_fits hcode hlen

theorem findElementBySysIdtf_frames (hcode : SctpCommandCode.findElementBySysIdtf.code = h.cmdCode) :
    CaseFrames h asserts calls .findElementBySysIdtf server l ↔
      Answered asserts calls server l .findElementBySysIdtf := by
  unfold CaseFrames processCase processFindElementBySysIdtf Answered HasContent
  rw [wp_bind, wp_readContent _ rfl]
  refine parses_congr fun dataLen rest => and_congr_right fun _ => and_congr_right fun _ =>
    and_congr_right fun _ => ?_
  rw [wp_bind, wp_call]
  refine returns_congr fun found mem _ => iff_of_true ?_ trivial
  cases found with
  | none => exact writeAlone_frames hcode .fail .noError rfl
  | some result =>
    have hlen : (bytes result).length = 4 := Raw.length_bytes result
    simp only [wp_bind, wp_writeResultHeader, wp_write, wp_pure, List.nil_append]
    exact (isFrame_fits hcode hlen).mpr (by decide)

theorem setSysIdtf_frames (hcode : SctpCommandCode.setSysIdtf.code = h.cmdCode) :
    CaseFrames h asserts calls .setSysIdtf server l ↔ Answered asserts calls server l .setSysIdtf := by
  unfold CaseFrames processCase processSetSysIdtf Answered HasContent
  rw [wp_bind, wp_params _ rfl]
  refine parses_congr fun addr rest => ?_
  rw [wp_bind, wp_readContent _ rfl]
  refine parses_congr fun dataLen rest => and_congr_right fun _ => and_congr_right fun _ =>
    and_congr_right fun _ => ?_
  simp only [wp_bind, wp_call, wp_writeResultHeader, wp_pure, List.nil_append, isFrame_alone hcode]

theorem statistics_frames (hcode : SctpCommandCode.statistics.code = h.cmdCode) :
    CaseFrames h asserts calls .statistics server l ↔ Answered asserts calls server l .statistics := by
  unfold CaseFrames processCase processStatistics Answered
  rw [wp_bind, wp_params _ rfl]
  refine parses_congr fun beginTime rest => ?_
  rw [wp_bind, wp_params _ rfl]
  refine parses_congr fun endTime rest => ?_
  rw [wp_bind, wp_call]
  refine returns_congr fun stat mem _ => ?_
  have hitems : (stat.flatMap StatItem.data).length = 72*stat.length := by
    rw [List.length_flatMap]
    simp [StatItem.length_eq, Nat.mul_comm]
  have hlen : (bytes (BitVec.ofNat 32 stat.length) ++ stat.flatMap StatItem.data).length =
      4+72*stat.length := by
    rw [List.length_append, Raw.length_bytes, hitems]
    rfl
  simp only [wp_bind, wp_writeResultHeader, wp_write, wp_pure, List.nil_append, List.append_assoc]
  exact isFrame_fits hcode hlen

theorem case_frames (c : SctpCommandCode) (hcode : c.code = h.cmdCode) :
    CaseFrames h asserts calls c server l ↔ Answered asserts calls server l c := by
  cases c with
  | checkElement => exact checkElement_frames asserts calls server l hcode
  | getElementType => exact getElementType_frames asserts calls server l hcode
  | eraseElement => exact eraseElement_frames asserts calls server l hcode
  | createNode => exact createNode_frames asserts calls server l hcode
  | createLink => exact createLink_frames asserts calls server l hcode
  | createArc => exact createArc_frames asserts calls server l hcode
  | getArc => exact getArc_frames asserts calls server l hcode
  | getLinkContent => exact getLinkContent_frames asserts calls server l hcode
  | findLinks => exact findLinks_frames asserts calls server l hcode
  | setLinkContent => exact setLinkContent_frames asserts calls server l hcode
  | iterateElements => exact iterateElements_frames asserts calls server l hcode
  | iterateConstruction => exact iterateConstruction_frames asserts calls server l hcode
  | eventCreate => exact eventCreate_frames asserts calls server l hcode
  | eventDestroy => exact eventDestroy_frames asserts calls server l hcode
  | eventEmit => exact eventEmit_frames asserts calls server l hcode
  | generateConstruction => exact generateConstruction_frames asserts calls server l hcode
  | findElementBySysIdtf => exact findElementBySysIdtf_frames asserts calls server l hcode
  | setSysIdtf => exact setSysIdtf_frames asserts calls server l hcode
  | statistics => exact statistics_frames asserts calls server l hcode

/-- One result for a command whose parameters have all been read. -/
theorem processed_frames (c : SctpCommandCode) (rest : List Byte) :
    OneFrame h (match processCase asserts calls h.cmdId c { server with params := l, out := [] } with
      | .error .stop => none
      | .error (.exit e s') => some ⟨e, s'.out, rest, s'.toSctpServer⟩
      | .ok (e, s') => some ⟨e, s'.out, rest, s'.toSctpServer⟩) ↔
    CaseFrames h asserts calls c server l := by
  unfold CaseFrames Wp OneFrame
  rcases processCase asserts calls h.cmdId c { server with params := l, out := [] } with
    (⟨e, s'⟩ | _) | ⟨e, s'⟩
  · simp [HaltFrame]
  · simp [HaltFrame]
  · simp

end

theorem oneFrame_iff (asserts : Bool) (calls : ServerCalls σ ι) (server : SctpServer σ)
    (stream : List Byte) (h : CommandHeader) (rest : List Byte)
    (hread : readCommandHeader stream = some (h, rest)) :
    OneFrame h (processCommand asserts calls stream server) ↔
      RequestAnswered asserts calls server h rest := by
  have hnothing (p : Processed σ) (hout : p.out = []) : ¬ OneFrame h (some p) := by
    rintro ⟨p', he, hframe⟩
    cases he
    exact not_isFrame_nil (hout ▸ hframe)
  unfold processCommand readCommand
  rw [hread]
  dsimp only
  by_cases harrived : rest.length < h.cmdParamSize.toNat
  · rw [if_pos harrived]
    refine iff_of_false (hnothing _ rfl) (fun hno => ?_)
    have hall := hno.arrived
    omega
  rw [if_neg harrived]
  dsimp only
  cases hcode : SctpCommandCode.ofCode h.cmdCode with
  | none =>
    refine iff_of_false (hnothing _ rfl) (fun hno => ?_)
    obtain ⟨c, hc, _⟩ := hno.answered
    rw [hcode] at hc
    cases hc
  | some c =>
    have hanswered := (processed_frames asserts calls server
      (rest.take (paramsDataSize h.cmdParamSize)) c (rest.drop (paramsDataSize h.cmdParamSize))).trans
      (case_frames asserts calls server _ c (SctpCommandCode.code_of_ofCode hcode))
    refine hanswered.trans ⟨fun ha => ⟨by omega, c, hcode, ha⟩, fun ha => ?_⟩
    obtain ⟨c', hc, ha⟩ := ha.answered
    rw [hcode] at hc
    cases hc
    exact ha

/-- What a client reads of one result. -/
def readResult : Params (Byte × BitVec 32 × Byte × List Byte) := do
  let cmdCode ← readParam Byte
  let cmdId ← readParam (BitVec 32)
  let resCode ← readParam Byte
  let resSize ← readParam (BitVec 32)
  fun l =>
    if l.length < resSize.toNat then none
    else some ((cmdCode, cmdId, resCode, l.take resSize.toNat), l.drop resSize.toNat)

/-- One result for each of the requests, in their order. -/
def readResults : ℕ → Params (List (Byte × BitVec 32 × Byte × List Byte))
  | 0 => return []
  | n+1 => do
    let result ← readResult
    let results ← readResults n
    return result :: results

theorem readResult_frame {h : CommandHeader} {out : List Byte} (hframe : IsFrame h out) (l : List Byte) :
    ∃ resCode payload, readResult (out ++ l) = some ((h.cmdCode, h.cmdId, resCode, payload), l) := by
  obtain ⟨resCode, resSize, payload, rfl, hlen, _⟩ := hframe
  refine ⟨resCode.code, payload, ?_⟩
  unfold readResult resultHeaderBytes
  simp only [List.append_assoc]
  rw [bind_readParam_bytes, bind_readParam_bytes, bind_readParam_bytes, bind_readParam_bytes]
  have hle : ¬ (payload ++ l).length < resSize.toNat := by
    rw [List.length_append]
    omega
  rw [if_neg hle, ← hlen, List.take_left, List.drop_left]

/-- A request and what has been written for it. -/
structure Exchange where
  header : CommandHeader
  out : List Byte

/-- The server processes a request that is answered in the state in which it comes. -/
def ExchangeStep (asserts : Bool) (calls : ServerCalls σ ι) (s : SctpServer σ) (e : Exchange)
    (s' : SctpServer σ) : Prop :=
  ∃ stream rest p, readCommandHeader stream = some (e.header, rest) ∧
    RequestAnswered asserts calls s e.header rest ∧
      processCommand asserts calls stream s = some p ∧ p.out = e.out ∧ p.server = s'

/-- For a command with a whole header, one result is written exactly when the command is answered. So a client
that reads one result for each of its requests, all of them answered, gets the results of its requests, and
nothing is left over. -/
theorem response_framed_iff (asserts : Bool) (calls : ServerCalls σ ι) :
    (∀ (server : SctpServer σ) (stream : List Byte) (h : CommandHeader) (rest : List Byte),
      readCommandHeader stream = some (h, rest) →
        (OneFrame h (processCommand asserts calls stream server) ↔
          RequestAnswered asserts calls server h rest)) ∧
    ∀ (es : List Exchange) (s s' : SctpServer σ), Run (ExchangeStep asserts calls) s es s' →
      ∃ results, readResults es.length (es.flatMap Exchange.out) = some (results, []) ∧
        results.map (fun r => (r.1, r.2.1)) = es.map fun e => (e.header.cmdCode, e.header.cmdId) := by
  refine ⟨oneFrame_iff asserts calls, fun es s s' hr => ?_⟩
  induction es generalizing s with
  | nil => exact ⟨[], rfl, rfl⟩
  | cons e es ih =>
    obtain ⟨m, ⟨stream, rest, p, hread, hanswered, hp, hout, _⟩, hrest⟩ := hr
    obtain ⟨p', he, hframe⟩ := (oneFrame_iff asserts calls s stream e.header rest hread).mpr hanswered
    obtain rfl : p = p' := Option.some.inj (hp.symm.trans he)
    rw [hout] at hframe
    obtain ⟨results, hresults, hheads⟩ := ih m hrest
    obtain ⟨resCode, payload, hresult⟩ := readResult_frame hframe (es.flatMap Exchange.out)
    refine ⟨(e.header.cmdCode, e.header.cmdId, resCode, payload) :: results, ?_, ?_⟩
    · show (readResult >>= fun result => readResults es.length >>= fun results =>
        pure (result :: results)) (e.out ++ es.flatMap Exchange.out) = _
      show (readResult (e.out ++ es.flatMap Exchange.out)).bind _ = _
      rw [hresult]
      show (readResults es.length (es.flatMap Exchange.out)).bind _ = _
      rw [hresults]
      rfl
    · rw [List.map_cons, List.map_cons, hheads]

end

/-! The calls on elements, made on the store. -/

def ofStore {α β : Type} (f : α → β) (x : StoreM α) : ServerCall ScStorage β := fun st =>
  match x st with
  | .ok (a, st') => some (f a, st')
  | .error _ => none

/-- A result of the store, where the code asks for `SC_RESULT_OK` only. -/
def okOnly {α : Type} (r : ScResult × Option α) : Option α := if r.1 = .ok then r.2 else none

/-- No content of the database is longer than a stream can be. -/
def streamOfContent (l : List ScByte) : Option ScStream :=
  if hlen : l.length < 4294967296 then some ⟨l, true, hlen⟩ else none

def storeCalls {ι : Type} (env : ScEnv) (ctx : ScContext) (order : HashOrder)
    (others : ServerCalls ScStorage ι) : ServerCalls ScStorage ι :=
  { others with
    isElement := fun a => ofStore id (scStorageIsElement env a)
    getElementType := fun a => ofStore okOnly (scStorageGetElementType env ctx a)
    elementFree := fun a => ofStore (fun r => decide (r = .ok)) (scStorageElementFree env ctx order a)
    nodeNew := fun type => ofStore id (scStorageNodeNew env ctx type)
    linkNew := ofStore id (scStorageLinkNew env ctx true)
    arcNew := fun type begin_ end_ => ofStore id (scStorageArcNew env ctx type begin_ end_)
    getArcBegin := fun a => ofStore okOnly (scStorageGetArcBegin env ctx a)
    getArcEnd := fun a => ofStore okOnly (scStorageGetArcEnd env ctx a)
    getLinkContent := fun a => ofStore
      (fun r => if r.1 = .ok then some (r.2.bind streamOfContent) else none)
      (scStorageGetLinkContent env ctx a) }

/-- A server without links, iterators, identifiers, subscriptions and statistics. -/
def bareCalls {ι : Type} : ServerCalls ScStorage ι where
  isElement _ := fun st => some (false, st)
  getElementType _ := fun st => some (none, st)
  elementFree _ := fun st => some (false, st)
  nodeNew _ := fun st => some (ScAddr.empty, st)
  linkNew := fun st => some (ScAddr.empty, st)
  arcNew _ _ _ := fun st => some (ScAddr.empty, st)
  getArcBegin _ := fun st => some (none, st)
  getArcEnd _ := fun st => some (none, st)
  getLinkContent _ := fun st => some (none, st)
  findLinksWithContent _ := fun st => some (none, st)
  setLinkContent _ _ := fun st => some (false, st)
  iterate _ := fun st => some (none, st)
  iteratorNew _ := fun st => some (none, st)
  iteratorNext it := fun st => some ((none, it), st)
  iteratorFree _ := fun st => some ((), st)
  findElementBySystemIdentifier _ := fun st => some (none, st)
  setSystemIdentifier _ _ := fun st => some (false, st)
  createEvent _ _ := fun st => some (none, st)
  destroyEvent _ := fun st => some (false, st)
  getStatisticsInTimeRange _ _ := fun st => some ([], st)

def exampleCalls : ServerCalls ScStorage Unit :=
  storeCalls ⟨1, Nat.one_ne_zero, 65535, fun _ _ => 48, fun _ => 0⟩ ⟨1, 0xff⟩ ⟨id, List.Perm.refl⟩
    bareCalls

def emptyServer : SctpServer ScStorage := ⟨ScStorage.empty, [], [], 0⟩

/-- `SCTP_CMD_CREATE_NODE` for a constant node. -/
def createNodeHeader : CommandHeader := ⟨0x04, 0, 1, 2⟩

def createNodeStream : List Byte := [0x04, 0, 1, 0, 0, 0, 2, 0, 0, 0, 0x21, 0]

theorem createNode_framed :
    OneFrame createNodeHeader (processCommand true exampleCalls createNodeStream emptyServer) ↔
      RequestAnswered true exampleCalls emptyServer createNodeHeader [0x21, 0] :=
  (response_framed_iff true exampleCalls).1 emptyServer createNodeStream createNodeHeader [0x21, 0]
    (by decide)

/-- `SCTP_CMD_CREATE_ARC` with the empty address for both ends. -/
def createArcHeader : CommandHeader := ⟨0x06, 0, 1, 10⟩

def createArcStream : List Byte := [0x06, 0, 1, 0, 0, 0, 10, 0, 0, 0] ++ ([0x10, 0] ++ List.replicate 8 0)

/-- The result says that a link has not been created. -/
theorem createArc_out :
    (processCommand true exampleCalls createArcStream emptyServer).map Processed.out =
      some (resultHeaderBytes SctpCommandCode.createLink.code 1 .fail 0 ++ []) := by
  decide +kernel

theorem not_every_response_framed :
    ¬ ∀ (asserts : Bool) (calls : ServerCalls ScStorage Unit) (server : SctpServer ScStorage)
      (stream : List Byte) (h : CommandHeader) (rest : List Byte),
      readCommandHeader stream = some (h, rest) →
        OneFrame h (processCommand asserts calls stream server) := by
  intro hall
  obtain ⟨p, hp, resCode, resSize, payload, hout, _⟩ := hall true exampleCalls emptyServer
    createArcStream createArcHeader ([0x10, 0] ++ List.replicate 8 0) (by decide)
  have hbytes := createArc_out
  rw [hp, Option.map_some, Option.some.injEq, hout] at hbytes
  -- the first byte is the code of another command
  have hcode := (header_append_inj hbytes).1
  revert hcode
  decide

end ScMachine.Sctp
