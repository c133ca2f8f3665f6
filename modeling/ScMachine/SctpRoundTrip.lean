import ScMachine.SctpClient
import ScMachine.SctpParams

/-! Iterator requests between the client and the server. -/
namespace ScMachine.Sctp
open ScMachine.Store ScMachine.ByteFormat ScMachine.WireFormat

/-- The buffer of `Iterator3` and `Iterator5`, with the bytes that stood there before. -/
abbrev ClientBuffer : Type := {l : List Byte // l.length = 128}

/-- The server has the iterator of the client, under the command, the flags, the id and the size that the
client has put into the header. -/
def Received (stream : List Byte) (header : CommandHeader) (it : SctpIterator) : Prop :=
  ∃ params rest, readCommand stream = .ok (header, params, rest) ∧ readIterator params = some (it, [])

/-- The bytes of an iterator, each parameter behind the one before. -/
def iteratorBytes : SctpIterator → List Byte
  | .f3_a_a a b c => bytes SctpIteratorType.f3_a_a.code ++ bytes a ++ bytes b ++ bytes c
  | .a3_a_f a b c => bytes SctpIteratorType.a3_a_f.code ++ bytes a ++ bytes b ++ bytes c
  | .f3_a_f a b c => bytes SctpIteratorType.f3_a_f.code ++ bytes a ++ bytes b ++ bytes c
  | .f5_a_a_a_f a b c d e =>
    bytes SctpIteratorType.f5_a_a_a_f.code ++ bytes a ++ bytes b ++ bytes c ++ bytes d ++ bytes e
  | .a5_a_f_a_f a b c d e =>
    bytes SctpIteratorType.a5_a_f_a_f.code ++ bytes a ++ bytes b ++ bytes c ++ bytes d ++ bytes e
  | .f5_a_f_a_f a b c d e =>
    bytes SctpIteratorType.f5_a_f_a_f.code ++ bytes a ++ bytes b ++ bytes c ++ bytes d ++ bytes e
  | .f5_a_f_a_a a b c d e =>
    bytes SctpIteratorType.f5_a_f_a_a.code ++ bytes a ++ bytes b ++ bytes c ++ bytes d ++ bytes e
  | .f5_a_a_a_a a b c d e =>
    bytes SctpIteratorType.f5_a_a_a_a.code ++ bytes a ++ bytes b ++ bytes c ++ bytes d ++ bytes e
  | .a5_a_f_a_a a b c d e =>
    bytes SctpIteratorType.a5_a_f_a_a.code ++ bytes a ++ bytes b ++ bytes c ++ bytes d ++ bytes e

/-- The server reads what stands in the order of the kind. -/
theorem readIterator_bytes (it : SctpIterator) : readIterator (iteratorBytes it) = some (it, []) := by
  cases it <;>
  · unfold iteratorBytes readIterator
    simp only [List.append_assoc, bind_readParam_bytes, SctpIteratorType.ofCode_code]
    unfold readIteratorArgs
    simp only [bind_readParam_bytes]
    rw [bind_readParam_all _ (Raw.length_bytes _), Raw.ofBytes_bytes]
    rfl

/-- Every kind but one is put into the buffer as it is read. -/
theorem iteratorParamsT_take (buf : ClientBuffer) (it : SctpIterator)
    (h : ∀ a b c d e, it ≠ .f5_a_f_a_f a b c d e) :
    (iteratorParamsT buf.1 it).1.take (iteratorParamsT buf.1 it).2 = iteratorBytes it := by
  have start : Filled buf.1 [] 128 := Filled.nil buf.2
  cases it with
  | f3_a_a a b c =>
    have h0 := start.put 0 SctpIteratorType.f3_a_a.code rfl (by decide)
    have h1 := h0.put 1 a rfl (by decide)
    have h2 := h1.put 5 b rfl (by decide)
    exact (h2.put 7 c rfl (by decide)).take_eq
  | a3_a_f a b c =>
    have h0 := start.put 0 SctpIteratorType.a3_a_f.code rfl (by decide)
    have h1 := h0.put 1 a rfl (by decide)
    have h2 := h1.put 3 b rfl (by decide)
    exact (h2.put 5 c rfl (by decide)).take_eq
  | f3_a_f a b c =>
    have h0 := start.put 0 SctpIteratorType.f3_a_f.code rfl (by decide)
    have h1 := h0.put 1 a rfl (by decide)
    have h2 := h1.put 5 b rfl (by decide)
    exact (h2.put 7 c rfl (by decide)).take_eq
  | f5_a_a_a_f a b c d e =>
    have h0 := start.put 0 SctpIteratorType.f5_a_a_a_f.code rfl (by decide)
    have h1 := h0.put 1 a rfl (by decide)
    have h2 := h1.put 5 b rfl (by decide)
    have h3 := h2.put 7 c rfl (by decide)
    have h4 := h3.put 9 d rfl (by decide)
    exact (h4.put 11 e rfl (by decide)).take_eq
  | a5_a_f_a_f a b c d e =>
    have h0 := start.put 0 SctpIteratorType.a5_a_f_a_f.code rfl (by decide)
    have h1 := h0.put 1 a rfl (by decide)
    have h2 := h1.put 3 b rfl (by decide)
    have h3 := h2.put 5 c rfl (by decide)
    have h4 := h3.put 9 d rfl (by decide)
    exact (h4.put 11 e rfl (by decide)).take_eq
  | f5_a_f_a_f a b c d e => exact absurd rfl (h a b c d e)
  | f5_a_f_a_a a b c d e =>
    have h0 := start.put 0 SctpIteratorType.f5_a_f_a_a.code rfl (by decide)
    have h1 := h0.put 1 a rfl (by decide)
    have h2 := h1.put 5 b rfl (by decide)
    have h3 := h2.put 7 c rfl (by decide)
    have h4 := h3.put 11 d rfl (by decide)
    exact (h4.put 13 e rfl (by decide)).take_eq
  | f5_a_a_a_a a b c d e =>
    have h0 := start.put 0 SctpIteratorType.f5_a_a_a_a.code rfl (by decide)
    have h1 := h0.put 1 a rfl (by decide)
    have h2 := h1.put 5 b rfl (by decide)
    have h3 := h2.put 7 c rfl (by decide)
    have h4 := h3.put 9 d rfl (by decide)
    exact (h4.put 11 e rfl (by decide)).take_eq
  | a5_a_f_a_a a b c d e =>
    have h0 := start.put 0 SctpIteratorType.a5_a_f_a_a.code rfl (by decide)
    have h1 := h0.put 1 a rfl (by decide)
    have h2 := h1.put 3 b rfl (by decide)
    have h3 := h2.put 5 c rfl (by decide)
    have h4 := h3.put 9 d rfl (by decide)
    exact (h4.put 11 e rfl (by decide)).take_eq

/-- The four bytes that no store of the kind `5f_a_f_a_f` reaches although they are sent. -/
def staleBytes (buf : ClientBuffer) : List Byte := (buf.1.drop 13).take 4

theorem length_staleBytes (buf : ClientBuffer) : (staleBytes buf).length = 4 := by
  unfold staleBytes
  rw [List.length_take, List.length_drop, buf.2]
  rfl

/-- The fourth parameter stands over the third, and the fifth over the end of the third. -/
theorem iteratorParamsT_take_f5_a_f_a_f (buf : ClientBuffer) (a : ScAddr) (b : ScType) (c : ScAddr)
    (d : ScType) (e : ScAddr) :
    (iteratorParamsT buf.1 (.f5_a_f_a_f a b c d e)).1.take 17 =
      bytes SctpIteratorType.f5_a_f_a_f.code ++ bytes a ++ bytes b ++ bytes d ++ bytes e ++
        staleBytes buf := by
  have start : Filled buf.1 [] 128 := Filled.nil buf.2
  have h0 := start.put 0 SctpIteratorType.f5_a_f_a_f.code rfl (by decide)
  have h1 := h0.put 1 a rfl (by decide)
  have h2 := h1.put 5 b rfl (by decide)
  have h3 := h2.put 7 c rfl (by decide)
  -- the third parameter is given up for the fourth
  have h4 := h3.pre.put 7 d rfl (by decide)
  have h5 := h4.put 9 e rfl (by decide)
  have hdrop : (iteratorParamsT buf.1 (.f5_a_f_a_f a b c d e)).1.drop 13 = buf.1.drop 13 := by
    have hle {l l' : List Byte} (h : Filled l l' 128) (k : ℕ) (hk : k ≤ 128) : k ≤ l.length :=
      h.length_eq ▸ hk
    unfold iteratorParamsT
    rw [drop_put_of_le e (hle h4 9 (by decide)) (by decide),
      drop_put_of_le d (hle h3 7 (by decide)) (by decide),
      drop_put_of_le c (hle h2 7 (by decide)) (by decide),
      drop_put_of_le b (hle h1 5 (by decide)) (by decide),
      drop_put_of_le a (hle h0 1 (by decide)) (by decide),
      drop_put_of_le _ (Nat.zero_le _) (by decide)]
  have htake := h5.take_eq
  rw [show 17 = 13+4 from rfl, List.take_add, hdrop]
  exact congrArg (fun l => l ++ staleBytes buf) htake

/-- What the server makes of the bytes of that kind. -/
theorem readIterator_stale (buf : ClientBuffer) (a : ScAddr) (b d : ScType) (e : ScAddr) :
    readIterator (bytes SctpIteratorType.f5_a_f_a_f.code ++ bytes a ++ bytes b ++ bytes d ++ bytes e ++
      staleBytes buf) =
    some (.f5_a_f_a_f a b ⟨d, e.seg⟩ e.offset (ofBytes (staleBytes buf)), []) := by
  have hregroup : bytes SctpIteratorType.f5_a_f_a_f.code ++ bytes a ++ bytes b ++ bytes d ++ bytes e ++
      staleBytes buf = bytes SctpIteratorType.f5_a_f_a_f.code ++ (bytes a ++ (bytes b ++
        (bytes (⟨d, e.seg⟩ : ScAddr) ++ (bytes e.offset ++ staleBytes buf)))) := by
    simp only [bytes_addr, List.append_assoc]
  rw [hregroup]
  unfold readIterator
  simp only [bind_readParam_bytes, SctpIteratorType.ofCode_code]
  unfold readIteratorArgs
  simp only [bind_readParam_bytes]
  rw [bind_readParam_all _ (length_staleBytes buf)]
  rfl

/-- When the server has the parameters of the client: always but for `5f_a_f_a_f`, whose third address
has to be what is written over it and whose last parameters have to be what is read behind it. -/
def ParamsKept (buf : ClientBuffer) : SctpIterator → Prop
  | .f5_a_f_a_f _ _ c d e => c = ⟨d, e.seg⟩ ∧ d = e.offset ∧ e = ofBytes (staleBytes buf)
  | _ => True

theorem readIterator_iff (buf : ClientBuffer) (it : SctpIterator) :
    readIterator ((iteratorParamsT buf.1 it).1.take (iteratorParamsT buf.1 it).2) = some (it, []) ↔
      ParamsKept buf it := by
  by_cases h : ∀ a b c d e, it ≠ .f5_a_f_a_f a b c d e
  · rw [iteratorParamsT_take buf it h, readIterator_bytes]
    cases it with
    | f5_a_f_a_f a b c d e => exact absurd rfl (h a b c d e)
    | _ => simp [ParamsKept]
  · push Not at h
    obtain ⟨a, b, c, d, e, rfl⟩ := h
    have hsize : (iteratorParamsT buf.1 (.f5_a_f_a_f a b c d e)).2 = 17 := rfl
    rw [hsize, iteratorParamsT_take_f5_a_f_a_f, readIterator_stale]
    constructor
    · intro heq
      have hit := (Prod.mk.inj (Option.some.inj heq)).1
      injection hit with _ _ hc hd he
      exact ⟨hc.symm, hd.symm, he.symm⟩
    · rintro ⟨hc, hd, he⟩
      rw [← he, hc, ← hd]

theorem iteratorParamsT_size (buf : List Byte) (it : SctpIterator) :
    9 ≤ (iteratorParamsT buf it).2 ∧ (iteratorParamsT buf it).2 ≤ 17 := by
  cases it <;> exact ⟨Nat.le_of_ble_eq_true rfl, Nat.le_of_ble_eq_true rfl⟩

theorem length_iteratorParamsT_take (buf : ClientBuffer) (it : SctpIterator) :
    ((iteratorParamsT buf.1 it).1.take (iteratorParamsT buf.1 it).2).length =
      (iteratorParamsT buf.1 it).2 := by
  by_cases h : ∀ a b c d e, it ≠ .f5_a_f_a_f a b c d e
  · rw [iteratorParamsT_take buf it h]
    cases it <;> rfl
  · push Not at h
    obtain ⟨a, b, c, d, e, rfl⟩ := h
    have hsize : (iteratorParamsT buf.1 (.f5_a_f_a_f a b c d e)).2 = 17 := rfl
    rw [hsize, iteratorParamsT_take_f5_a_f_a_f, List.length_append, length_staleBytes]
    rfl

theorem paramsDataSize_ofNat {n : ℕ} (h : n < 2^31) : paramsDataSize (BitVec.ofNat 32 n) = n := by
  have hn : (BitVec.ofNat 32 n).toNat = n := by
    rw [BitVec.toNat_ofNat]
    omega
  unfold paramsDataSize
  rw [BitVec.toInt_eq_toNat_of_lt (by omega), hn]
  rfl

/-- Without padding the server reads the header as it was written. -/
theorem readCommandHeader_packed (h : CommandHeader) (r : List Byte) :
    readCommandHeader (requestHeaderBytes [] h ++ r) = some (h, r) := by
  unfold requestHeaderBytes readCommandHeader
  simp only [List.append_assoc, List.nil_append, bind_readParam_bytes]
  rfl

theorem received_packed_iff (id : BitVec 32) (buf : ClientBuffer) (it : SctpIterator)
    (rest : List Byte) :
    Received (iteratorRequest [] id buf.1 it ++ rest)
      (iteratorHeader id (iteratorParamsT buf.1 it).2) it ↔ ParamsKept buf it := by
  rw [← readIterator_iff]
  set size := (iteratorParamsT buf.1 it).2 with hsize
  set args := (iteratorParamsT buf.1 it).1.take size with hargs
  have hlen : args.length = size := length_iteratorParamsT_take buf it
  have hbound : size ≤ 17 := (iteratorParamsT_size buf.1 it).2
  have htoNat : (BitVec.ofNat 32 size).toNat = size := by
    rw [BitVec.toNat_ofNat]
    omega
  have hcommand : readCommand (iteratorRequest [] id buf.1 it ++ rest) =
      .ok (iteratorHeader id size, args, rest) := by
    have hstream : iteratorRequest [] id buf.1 it ++ rest =
        requestHeaderBytes [] (iteratorHeader id size) ++ (args ++ rest) :=
      List.append_assoc _ _ _
    have henough : ¬ (args ++ rest).length < (iteratorHeader id size).cmdParamSize.toNat := by
      show ¬ (args ++ rest).length < (BitVec.ofNat 32 size).toNat
      rw [htoNat, List.length_append]
      omega
    have hdata : paramsDataSize (iteratorHeader id size).cmdParamSize = args.length := by
      rw [hlen]
      exact paramsDataSize_ofNat (by omega)
    unfold readCommand
    rw [hstream, readCommandHeader_packed]
    simp only
    rw [if_neg henough, hdata, List.take_left, List.drop_left]
  constructor
  · rintro ⟨params, rest', hread, hit⟩
    rw [hcommand] at hread
    obtain ⟨_, hparams, _⟩ := Prod.mk.inj (Except.ok.inj hread)
    exact hit
  · intro hit
    exact ⟨args, rest, hcommand, hit⟩

/-- With two bytes of padding the server takes them for the start of the id, and each of the fields
behind them two bytes early. -/
theorem readCommandHeader_padded {padding : List Byte} (hp : padding.length = requestHeaderPadding)
    (h : CommandHeader) (r : List Byte) :
    readCommandHeader (requestHeaderBytes padding h ++ r) =
      some (⟨h.cmdCode, h.cmdFlags, ofBytes (padding ++ (bytes h.cmdId).take 2),
        ofBytes ((bytes h.cmdId).drop 2 ++ (bytes h.cmdParamSize).take 2)⟩,
          (bytes h.cmdParamSize).drop 2 ++ r) := by
  have hid : (bytes h.cmdId).length = 4 := Raw.length_bytes h.cmdId
  have hsize : (bytes h.cmdParamSize).length = 4 := Raw.length_bytes h.cmdParamSize
  have hgroup : requestHeaderBytes padding h ++ r = bytes h.cmdCode ++ (bytes h.cmdFlags ++
      ((padding ++ (bytes h.cmdId).take 2) ++ (((bytes h.cmdId).drop 2 ++
        (bytes h.cmdParamSize).take 2) ++ ((bytes h.cmdParamSize).drop 2 ++ r)))) := by
    conv_lhs =>
      unfold requestHeaderBytes
      rw [← List.take_append_drop 2 (bytes h.cmdId), ← List.take_append_drop 2 (bytes h.cmdParamSize)]
    simp only [List.append_assoc]
  have hfirst : (padding ++ (bytes h.cmdId).take 2).length = Raw.size (BitVec 32) := by
    rw [List.length_append, List.length_take, hid, hp]
    rfl
  have hsecond : ((bytes h.cmdId).drop 2 ++ (bytes h.cmdParamSize).take 2).length =
      Raw.size (BitVec 32) := by
    rw [List.length_append, List.length_take, List.length_drop, hid, hsize]
    rfl
  rw [hgroup]
  unfold readCommandHeader
  rw [bind_readParam_bytes, bind_readParam_bytes, bind_readParam_append _ hfirst,
    bind_readParam_append _ hsecond]
  rfl

/-- The size that the server reads is at least `65536` times the one that was sent. -/
theorem paramSize_ne (id : BitVec 32) {n : ℕ} (h0 : 0 < n) (hn : n < 65536) :
    (ofBytes ((bytes id).drop 2 ++ (bytes (BitVec.ofNat 32 n)).take 2) : BitVec 32) ≠
      BitVec.ofNat 32 n := by
  intro he
  have hlow : (bytes (BitVec.ofNat 32 n)).take 2 = leBytes 2 n := by
    have hbytes : bytes (BitVec.ofNat 32 n) = leBytes 2 n ++ leBytes 2 (n/256^2) := by
      rw [← leBytes_add]
      show leBytes 4 (BitVec.ofNat 32 n).toNat = leBytes 4 n
      rw [BitVec.toNat_ofNat, Nat.mod_eq_of_lt (by omega)]
    rw [hbytes]
    exact List.take_left' (length_leBytes 2 n)
  have hhigh : ((bytes id).drop 2).length = 2 := by
    rw [List.length_drop, Raw.length_bytes]
    rfl
  have hlt := ofLeBytes_lt ((bytes id).drop 2)
  rw [hhigh] at hlt
  have hvalue : ofLeBytes ((bytes id).drop 2 ++ leBytes 2 n) = ofLeBytes ((bytes id).drop 2)+256^2*n := by
    rw [ofLeBytes_append, hhigh, ofLeBytes_leBytes, Nat.mod_eq_of_lt (by omega)]
  have hnat := congrArg BitVec.toNat he
  rw [hlow] at hnat
  change (BitVec.ofNat 32 (ofLeBytes ((bytes id).drop 2 ++ leBytes 2 n))).toNat = _ at hnat
  rw [BitVec.toNat_ofNat, BitVec.toNat_ofNat, hvalue, Nat.mod_eq_of_lt (by omega),
    Nat.mod_eq_of_lt (by omega)] at hnat
  omega

/-- No iterator request arrives as it was sent: the server reads another size of the parameters. Were the
header written without padding, the parameters would arrive for every kind but `5f_a_f_a_f`, and for this
kind only when the overwritten address and the stale bytes happen to fit. -/
theorem iterator_request_received (id : BitVec 32) (buf : ClientBuffer) (it : SctpIterator)
    (rest : List Byte) :
    (∀ padding : List Byte, padding.length = requestHeaderPadding →
      ¬ Received (iteratorRequest padding id buf.1 it ++ rest)
        (iteratorHeader id (iteratorParamsT buf.1 it).2) it) ∧
    (Received (iteratorRequest [] id buf.1 it ++ rest)
        (iteratorHeader id (iteratorParamsT buf.1 it).2) it ↔ ParamsKept buf it) := by
  refine ⟨?_, received_packed_iff id buf it rest⟩
  rintro padding hp ⟨params, rest', hread, _⟩
  have hsize := iteratorParamsT_size buf.1 it
  unfold iteratorRequest readCommand at hread
  simp only at hread
  rw [List.append_assoc, readCommandHeader_padded hp] at hread
  simp only at hread
  split_ifs at hread
  have hheader := (Prod.mk.inj (Except.ok.inj hread)).1
  have hparam := congrArg CommandHeader.cmdParamSize hheader
  exact paramSize_ne id (by omega) (by omega) hparam

def zeroBuffer : ClientBuffer := ⟨List.replicate 128 0, rfl⟩

def exampleIterator : SctpIterator := .f3_a_a ⟨0, 1⟩ scTypeNode scTypeNode

/-- A request of the kind `3f_a_a`, with and without padding. -/
theorem iterator_request_example :
    ¬ Received (iteratorRequest [0, 0] 1 zeroBuffer.1 exampleIterator ++ [])
        (iteratorHeader 1 (iteratorParamsT zeroBuffer.1 exampleIterator).2) exampleIterator ∧
      Received (iteratorRequest [] 1 zeroBuffer.1 exampleIterator ++ [])
        (iteratorHeader 1 (iteratorParamsT zeroBuffer.1 exampleIterator).2) exampleIterator := by
  have h := iterator_request_received 1 zeroBuffer exampleIterator []
  exact ⟨h.1 [0, 0] rfl, h.2.mpr trivial⟩

/-- The server waits for more bytes than the client has sent. -/
theorem iterator_request_lost : ¬ ∀ (padding : List Byte) (id : BitVec 32) (buf : ClientBuffer)
    (it : SctpIterator) (rest : List Byte), padding.length = requestHeaderPadding →
      Received (iteratorRequest padding id buf.1 it ++ rest)
        (iteratorHeader id (iteratorParamsT buf.1 it).2) it := by
  intro hall
  obtain ⟨params, rest, hread, _⟩ := hall [0, 0] 1 zeroBuffer exampleIterator [] rfl
  have htimeout : readCommand (iteratorRequest [0, 0] 1 zeroBuffer.1 exampleIterator ++ []) =
      .error .cmdParamReadTimeout := by
    rfl
  rw [htimeout] at hread
  cases hread

end ScMachine.Sctp
