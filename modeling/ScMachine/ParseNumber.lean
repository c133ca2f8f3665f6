import ScMachine.ScTemplate

/-! Numbers in scs texts (`StringUtils::ParseNumber` of `sc_utils.hpp`, `SetupLinkContent` of
`sc_scs_helper.cpp`). They are read by the conversions of the standard library for wider types. -/
namespace ScMachine.Utils
open ScMachine.Template

/-- The integer types that a link can have. -/
inductive NumberType where
  | int8
  | int16
  | int32
  | int64
  | uint8
  | uint16
  | uint32
  | uint64
  deriving DecidableEq, Repr

def NumberType.bits : NumberType → ℕ
  | .int8 | .uint8 => 8
  | .int16 | .uint16 => 16
  | .int32 | .uint32 => 32
  | .int64 | .uint64 => 64

def NumberType.isSigned : NumberType → Bool
  | .int8 | .int16 | .int32 | .int64 => true
  | .uint8 | .uint16 | .uint32 | .uint64 => false

/-- The first number beyond those of an integer type of the width. -/
def numberLimit (bits : ℕ) (isSigned : Bool) : ℕ := 2^(if isSigned then bits-1 else bits)

def numberLeast (bits : ℕ) (isSigned : Bool) : ℤ := if isSigned then -2^(bits-1) else 0

/-- The width of `long`, which is that of the platform. -/
structure Platform where
  longBits : ℕ
  longBits_eq : longBits = 32 ∨ longBits = 64

/-- What the conversions throw. -/
inductive ConversionError where
  | invalidArgument
  | outOfRange
  deriving DecidableEq, Repr

def isSpace (c : Char) : Bool := c = ' ' || (9 ≤ c.toNat && c.toNat ≤ 13)

def digitsValue (digits : List Char) : ℕ :=
  digits.foldl (fun n c => n*10+(c.toNat-48)) 0

/-- The sign and the digits at the beginning of a text. -/
def readNumber (value : List Char) : Bool × List Char :=
  match value.dropWhile isSpace with
  | '-' :: rest => (true, rest.takeWhile Char.isDigit)
  | '+' :: rest => (false, rest.takeWhile Char.isDigit)
  | rest => (false, rest.takeWhile Char.isDigit)

/-- `std::stol` and `std::stoll`. -/
def stringToSigned (bits : ℕ) (value : List Char) : Except ConversionError ℤ :=
  let (negative, digits) := readNumber value
  let n : ℤ := if negative then -digitsValue digits else digitsValue digits
  if digits = [] then .error .invalidArgument
  else if numberLeast bits true ≤ n ∧ n < numberLimit bits true then .ok n
  else .error .outOfRange

/-- `std::stoul` and `std::stoull`; a negative number is taken modulo the width. -/
def stringToUnsigned (bits : ℕ) (value : List Char) : Except ConversionError ℤ :=
  let (negative, digits) := readNumber value
  let n : ℤ := if negative then -digitsValue digits else digitsValue digits
  if digits = [] then .error .invalidArgument
  else if digitsValue digits < numberLimit bits false then .ok (n % 2^bits)
  else .error .outOfRange

/-- A number in an integer type, modulo its width. -/
def NumberType.cast (type : NumberType) (n : ℤ) : ℤ :=
  if type.isSigned then n.bmod (2^type.bits) else n % 2^type.bits

/-- The width of the type that a number is read in. -/
def NumberType.readBits (platform : Platform) : NumberType → ℕ
  | .int64 | .uint64 => 64
  | _ => platform.longBits

/-- `impl::toNumber`. -/
def toNumber (platform : Platform) (type : NumberType) (value : List Char) :
    Except ConversionError ℤ :=
  match type with
  | .int8 | .int16 | .int32 => return type.cast (← stringToSigned platform.longBits value)
  | .int64 => return type.cast (← stringToSigned 64 value)
  | .uint8 | .uint16 | .uint32 => return type.cast (← stringToUnsigned platform.longBits value)
  | .uint64 => return type.cast (← stringToUnsigned 64 value)

/-- `ParseNumber`: the number that it stores, if it returns true. -/
def parseNumber (platform : Platform) (type : NumberType) (value : List Char) : Option ℤ :=
  (toNumber platform type value).toOption

/-! The contents of links. -/

/-- The types that the text of a content can name. -/
inductive ContentType where
  | number (type : NumberType)
  | float
  | double
  deriving DecidableEq, Repr

def contentTypes : List (String × ContentType) :=
  [("int8", .number .int8), ("int16", .number .int16), ("int32", .number .int32),
    ("int64", .number .int64), ("uint8", .number .uint8), ("uint16", .number .uint16),
    ("uint32", .number .uint32), ("uint64", .number .uint64), ("float", .float), ("double", .double)]

/-- `[0-9]+|[0-9]+[.][0-9]+`. -/
def isNumberText (value : List Char) : Bool :=
  let rest := value.dropWhile Char.isDigit
  value.takeWhile Char.isDigit ≠ [] &&
    (rest = [] || (rest.head? = some '.' && rest.tail ≠ [] && rest.tail.all Char.isDigit))

/-- What is behind the name of the type, up to the closing quote. -/
def matchNumberValue (rest : List Char) : Option (List Char) :=
  match rest.dropWhile isSpace with
  | ':' :: rest =>
    let quoted := rest.dropWhile isSpace
    if quoted.getLast? = some '"' ∧ isNumberText quoted.dropLast then some quoted.dropLast else none
  | _ => none

/-- `std::regex_match` with `rNumber`: the type and the value. -/
def matchNumber (text : List Char) : Option (ContentType × List Char) :=
  match text with
  | '^' :: '"' :: rest => contentTypes.findSome? fun (name, type) =>
    (List.dropPrefix? rest name.toList).bind fun behind =>
      (matchNumberValue behind).map fun value => (type, value)
  | _ => none

/-- What a link is set to. -/
inductive LinkValue (F D S : Type) where
  | number (type : NumberType) (n : ℤ)
  | float (x : F)
  | double (x : D)
  | string (s : List Char)
  | stream (s : S)

/-- The conversions to floating numbers, and the files that a content can be taken from. -/
structure ContentLibrary (F D S : Type) where
  stof : List Char → Option F
  stod : List Char → Option D
  getFileContent : List Char → Option S

/-- `SetLinkContentT`: what the link is set to, if the number can be parsed. -/
def setLinkContentT {F D S : Type} (platform : Platform) (lib : ContentLibrary F D S)
    (type : ContentType) (value : List Char) : Option (LinkValue F D S) :=
  match type with
  | .number type => (parseNumber platform type value).map (.number type)
  | .float => (lib.stof value).map .float
  | .double => (lib.stod value).map .double

/-- `SetupLinkContent`: what the link is set to. Without a file the link is left as it is. -/
def setupLinkContent {F D S : Type} (platform : Platform) (lib : ContentLibrary F D S) (isURL : Bool)
    (value : List Char) : Except ScException (Option (LinkValue F D S)) :=
  if isURL then .ok ((lib.getFileContent value).map .stream)
  else match matchNumber value with
    | some (type, number) =>
      match setLinkContentT platform lib type number with
      | some content => .ok (some content)
      | none => .error (.invalidState ("Can't parse value from: " ++ String.ofList value))
    | none => .ok (some (.string value))

/-- The number is one of the type. -/
def NumberType.Represents (type : NumberType) (n : ℤ) : Prop :=
  numberLeast type.bits type.isSigned ≤ n ∧ n < numberLimit type.bits type.isSigned

instance (type : NumberType) (n : ℤ) : Decidable (type.Represents n) :=
  inferInstanceAs (Decidable (_ ∧ _))

/-- The first number that the conversion for the type does not read. -/
def NumberType.readLimit (platform : Platform) (type : NumberType) : ℕ :=
  numberLimit (type.readBits platform) type.isSigned

section
variable {platform : Platform} {type : NumberType} {value : List Char}

/-- A cast changes the numbers that are not of the type, and no others. -/
theorem cast_eq_iff (type : NumberType) (n : ℤ) : type.cast n = n ↔ type.Represents n := by
  unfold NumberType.cast NumberType.Represents numberLeast numberLimit
  cases type <;>
    simp only [NumberType.isSigned, NumberType.bits, Bool.false_eq_true, if_true, if_false] <;>
    norm_num [Int.bmod] <;> omega

theorem limit_le_readLimit (platform : Platform) (type : NumberType) :
    numberLimit type.bits type.isSigned ≤ type.readLimit platform := by
  unfold NumberType.readLimit numberLimit NumberType.readBits
  rcases platform.longBits_eq with hlong | hlong <;> rw [hlong] <;> cases type <;> decide

/-- A text that begins with a digit is read up to the last of its leading digits. -/
theorem readNumber_digits (h : value.takeWhile Char.isDigit ≠ []) :
    readNumber value = (false, value.takeWhile Char.isDigit) := by
  cases value with
  | nil => exact absurd rfl h
  | cons c rest =>
    have hdigit : c.isDigit = true := by
      by_contra hno
      exact h (List.takeWhile_cons_of_neg hno)
    have hrange : 48 ≤ c.toNat ∧ c.toNat ≤ 57 := by
      simpa [Char.isDigit, UInt32.le_iff_toNat_le] using hdigit
    have hspace : isSpace c = false := by
      have hne : c ≠ ' ' := by
        rintro rfl
        exact absurd hdigit (by decide)
      simp [isSpace, hne]
      omega
    unfold readNumber
    rw [List.dropWhile_cons_of_neg (by simp [hspace])]
    split
    · rename_i heq
      rw [(List.cons.inj heq).1] at hdigit
      exact absurd hdigit (by decide)
    · rename_i heq
      rw [(List.cons.inj heq).1] at hdigit
      exact absurd hdigit (by decide)
    · rfl

/-- The number that the leading digits of a text denote. -/
def leadingNumber (value : List Char) : ℕ := digitsValue (value.takeWhile Char.isDigit)

theorem stringToSigned_digits (bits : ℕ) (h : value.takeWhile Char.isDigit ≠ []) :
    stringToSigned bits value = if leadingNumber value < numberLimit bits true
      then .ok (leadingNumber value : ℤ) else .error .outOfRange := by
  have hleast : numberLeast bits true ≤ (leadingNumber value : ℤ) := by
    have hpow : (0 : ℤ) < 2^(bits-1) := by positivity
    simp only [numberLeast, if_true]
    omega
  unfold stringToSigned
  rw [readNumber_digits h]
  simp only [Bool.false_eq_true, if_false, if_neg h]
  change (if numberLeast bits true ≤ (leadingNumber value : ℤ) ∧
    (leadingNumber value : ℤ) < numberLimit bits true then _ else _) = _
  simp only [hleast, true_and, Nat.cast_lt]
  rfl

theorem stringToUnsigned_digits (bits : ℕ) (h : value.takeWhile Char.isDigit ≠ []) :
    stringToUnsigned bits value = if leadingNumber value < numberLimit bits false
      then .ok (leadingNumber value : ℤ) else .error .outOfRange := by
  unfold stringToUnsigned
  rw [readNumber_digits h]
  simp only [Bool.false_eq_true, if_false, if_neg h]
  change (if leadingNumber value < numberLimit bits false
    then Except.ok ((leadingNumber value : ℤ) % 2^bits) else _) = _
  split_ifs with hlt
  · congr 1
    apply Int.emod_eq_of_lt (by positivity)
    unfold numberLimit at hlt
    simp only [Bool.false_eq_true, if_false] at hlt
    exact_mod_cast hlt
  · rfl

/-- A text that begins with a digit is parsed when its leading digits fit the type they are read in. -/
theorem parseNumber_digits (platform : Platform) (type : NumberType)
    (h : value.takeWhile Char.isDigit ≠ []) :
    parseNumber platform type value = if leadingNumber value < type.readLimit platform
      then some (type.cast (leadingNumber value)) else none := by
  have hcast (n limit : ℕ) : (do
      let n ← (if n < limit then .ok (n : ℤ) else .error .outOfRange : Except ConversionError ℤ)
      return type.cast n : Except ConversionError ℤ).toOption =
        if n < limit then some (type.cast n) else none := by
    split_ifs <;> rfl
  unfold parseNumber toNumber NumberType.readLimit
  cases type <;>
    simp only [stringToSigned_digits _ h, stringToUnsigned_digits _ h] <;>
    exact hcast _ _

theorem parseNumber_nil (platform : Platform) (type : NumberType) :
    parseNumber platform type [] = none := by
  cases type <;> rfl

theorem represents_nat (type : NumberType) (n : ℕ) :
    type.Represents n ↔ n < numberLimit type.bits type.isSigned := by
  have hleast : numberLeast type.bits type.isSigned ≤ (n : ℤ) := by
    have hpow : (0 : ℤ) < 2^(type.bits-1) := by positivity
    unfold numberLeast
    split_ifs <;> omega
  unfold NumberType.Represents
  rw [Nat.cast_lt]
  exact and_iff_right hleast

end

/-! What the texts denote. -/

/-- The digits denote the number; the empty text denotes none. -/
def Denotes (digits : List Char) (n : ℤ) : Prop := digits ≠ [] ∧ n = digitsValue digits

/-- `ParseNumber` returns true for the numbers of the type, and stores them. -/
def ParsedExactly (platform : Platform) (type : NumberType) (digits : List Char) : Prop :=
  ((parseNumber platform type digits).isSome = true ↔ ∃ n, Denotes digits n ∧ type.Represents n) ∧
    ∀ n, parseNumber platform type digits = some n → Denotes digits n

/-- The number that a text of a content denotes, with what is behind its point. -/
def textValue (value : List Char) : ℚ :=
  let fraction := (value.dropWhile Char.isDigit).tail
  leadingNumber value+digitsValue fraction/10^fraction.length

/-- The link is set to the number, or the text is rejected. -/
def SetExactly {F D S : Type} (platform : Platform) (lib : ContentLibrary F D S) (text : List Char)
    (type : NumberType) (value : List Char) : Prop :=
  ∀ content, setupLinkContent platform lib false text = .ok content →
    ∃ n : ℤ, content = some (.number type n) ∧ (n : ℚ) = textValue value

/-- The number is one of the type, or not even one of the type it is read in. -/
def NumberType.Checked (platform : Platform) (type : NumberType) (n : ℕ) : Prop :=
  type.Represents n ∨ type.readLimit platform ≤ n

section
variable {platform : Platform} {type : NumberType} {value digits text : List Char} {n : ℤ}

theorem parseNumber_some (h : value.takeWhile Char.isDigit ≠ []) :
    parseNumber platform type value = some n ↔
      leadingNumber value < type.readLimit platform ∧ n = type.cast (leadingNumber value) := by
  rw [parseNumber_digits platform type h]
  split_ifs with hlt
  · simp only [Option.some.injEq, hlt, true_and]
    exact eq_comm
  · refine iff_of_false nofun (fun h => hlt h.1)

/-- A number that fits the type is read. -/
theorem lt_readLimit (platform : Platform) {m : ℕ} (h : type.Represents m) :
    m < type.readLimit platform :=
  lt_of_lt_of_le ((represents_nat type m).mp h) (limit_le_readLimit platform type)

theorem parsedExactly_iff (hdigits : ∀ c ∈ digits, c.isDigit = true) :
    ParsedExactly platform type digits ↔
      (digits ≠ [] → type.Checked platform (digitsValue digits)) := by
  by_cases hnil : digits = []
  · refine iff_of_true ⟨?_, ?_⟩ (fun hne => absurd hnil hne)
    · rw [hnil, parseNumber_nil]
      exact iff_of_false Bool.false_ne_true (fun ⟨_, hn, _⟩ => hn.1 rfl)
    · intro n hn
      rw [hnil, parseNumber_nil] at hn
      cases hn
  · have htake : digits.takeWhile Char.isDigit = digits := List.takeWhile_eq_self_iff.mpr hdigits
    have hlead : leadingNumber digits = digitsValue digits := by
      unfold leadingNumber
      rw [htake]
    have hsome (n : ℤ) := @parseNumber_some platform type digits n (by rw [htake]; exact hnil)
    simp only [hlead] at hsome
    constructor
    · intro h _
      by_contra hno
      obtain ⟨hfits, hread⟩ := not_or.mp hno
      have hparsed := (hsome _).mpr ⟨not_le.mp hread, rfl⟩
      have hcast := (h.2 _ hparsed).2
      exact hfits ((cast_eq_iff type _).mp hcast)
    · intro h
      refine ⟨⟨fun hparsed => ?_, fun ⟨n, ⟨_, hn⟩, hfits⟩ => ?_⟩, fun n hparsed => ?_⟩
      · obtain ⟨n, hn⟩ := Option.isSome_iff_exists.mp hparsed
        have hlt := ((hsome n).mp hn).1
        exact ⟨_, ⟨hnil, rfl⟩, (h hnil).resolve_right (not_le.mpr hlt)⟩
      · rw [hn] at hfits
        rw [(hsome _).mpr ⟨lt_readLimit platform hfits, rfl⟩]
        rfl
      · obtain ⟨hlt, hcast⟩ := (hsome n).mp hparsed
        have hfits := (h hnil).resolve_right (not_le.mpr hlt)
        exact ⟨hnil, hcast.trans ((cast_eq_iff type _).mpr hfits)⟩

/-- The value that the expression matches is a number. -/
theorem matchNumber_text {content : ContentType}
    (h : matchNumber text = some (content, value)) : isNumberText value = true := by
  unfold matchNumber at h
  split at h
  · obtain ⟨⟨name, type⟩, _, hfound⟩ := List.exists_of_findSome?_eq_some h
    obtain ⟨behind, _, hvalue⟩ := Option.bind_eq_some_iff.mp hfound
    obtain ⟨value', hmatch, heq⟩ := Option.map_eq_some_iff.mp hvalue
    cases heq
    unfold matchNumberValue at hmatch
    split at hmatch
    · simp only [Option.ite_none_right_eq_some, Option.some.injEq] at hmatch
      obtain ⟨⟨_, htext⟩, rfl⟩ := hmatch
      exact htext
    · cases hmatch
  · cases h

theorem isNumberText_iff : isNumberText value = true ↔ value.takeWhile Char.isDigit ≠ [] ∧
    (value.dropWhile Char.isDigit = [] ∨ ((value.dropWhile Char.isDigit).head? = some '.' ∧
      (value.dropWhile Char.isDigit).tail ≠ [] ∧
      ∀ c ∈ (value.dropWhile Char.isDigit).tail, c.isDigit = true)) := by
  unfold isNumberText
  simp only [ne_eq, Bool.and_eq_true, Bool.or_eq_true, decide_eq_true_eq, List.all_eq_true, and_assoc]

theorem digitsValue_lt (digits : List Char) (h : ∀ c ∈ digits, c.isDigit = true) :
    digitsValue digits < 10^digits.length := by
  induction digits using List.reverseRecOn with
  | nil => exact Nat.one_pos
  | append_singleton digits c ih =>
    have hprev := ih fun d hd => h d (List.mem_append_left _ hd)
    have hdigit : c.isDigit = true := h c (List.mem_append_right _ (List.mem_singleton.mpr rfl))
    have hrange : 48 ≤ c.toNat ∧ c.toNat ≤ 57 := by
      simpa [Char.isDigit, UInt32.le_iff_toNat_le] using hdigit
    have hstep : digitsValue (digits ++ [c]) = digitsValue digits*10+(c.toNat-48) := by
      unfold digitsValue
      rw [List.foldl_append]
      rfl
    rw [hstep, List.length_append, List.length_singleton, pow_succ]
    omega

/-- Behind the point is less than one. -/
theorem textValue_bounds (h : isNumberText value = true) :
    (leadingNumber value : ℚ) ≤ textValue value ∧ textValue value < leadingNumber value+1 := by
  have hfraction : ∀ c ∈ (value.dropWhile Char.isDigit).tail, c.isDigit = true := by
    rcases (isNumberText_iff.mp h).2 with hnil | ⟨_, _, hall⟩
    · rw [hnil]
      simp
    · exact hall
  have hlt := digitsValue_lt _ hfraction
  have hlt' : (digitsValue (value.dropWhile Char.isDigit).tail : ℚ) <
      10^(value.dropWhile Char.isDigit).tail.length := by exact_mod_cast hlt
  have hpos : (0 : ℚ) < 10^(value.dropWhile Char.isDigit).tail.length := by positivity
  unfold textValue
  constructor
  · have hnonneg : (0 : ℚ) ≤ digitsValue (value.dropWhile Char.isDigit).tail /
        10^(value.dropWhile Char.isDigit).tail.length := by positivity
    linarith only [hnonneg]
  · have hone := (div_lt_one hpos).mpr hlt'
    linarith only [hone]

/-- Only the leading number can be equal to the number of the text among the integers. -/
theorem eq_leadingNumber (h : isNumberText value = true) (hn : (n : ℚ) = textValue value) :
    n = leadingNumber value := by
  obtain ⟨hle, hlt⟩ := textValue_bounds h
  rw [← hn] at hle hlt
  have h1 : (leadingNumber value : ℤ) ≤ n := by exact_mod_cast hle
  have h2 : n < (leadingNumber value : ℤ)+1 := by exact_mod_cast hlt
  omega

theorem setExactly_iff {F D S : Type} (lib : ContentLibrary F D S)
    (h : matchNumber text = some (.number type, value)) :
    SetExactly platform lib text type value ↔ type.readLimit platform ≤ leadingNumber value ∨
      (type.Represents (leadingNumber value) ∧ (leadingNumber value : ℚ) = textValue value) := by
  have hsome (n : ℤ) := @parseNumber_some platform type value n (isNumberText_iff.mp (matchNumber_text h)).1
  have hset : setupLinkContent platform lib false text = (parseNumber platform type value).elim
      (.error (.invalidState ("Can't parse value from: " ++ String.ofList text)))
      (fun n => .ok (some (.number type n))) := by
    unfold setupLinkContent
    simp only [Bool.false_eq_true, if_false, h, setLinkContentT]
    cases parseNumber platform type value <;> rfl
  unfold SetExactly
  rw [hset]
  by_cases hread : type.readLimit platform ≤ leadingNumber value
  · have hnone : parseNumber platform type value = none := by
      rw [Option.eq_none_iff_forall_ne_some]
      intro n hn
      exact absurd ((hsome n).mp hn).1 (not_lt.mpr hread)
    rw [hnone]
    refine iff_of_true (fun content hcontent => ?_) (Or.inl hread)
    cases hcontent
  · rw [(hsome _).mpr ⟨not_le.mp hread, rfl⟩]
    simp only [Option.elim_some, Except.ok.injEq, forall_eq', Option.some.injEq, LinkValue.number.injEq, true_and,
      exists_eq_left', hread, false_or]
    constructor
    · intro hvalue
      have hlead := eq_leadingNumber (matchNumber_text h) hvalue
      rw [hlead] at hvalue
      exact ⟨(cast_eq_iff type _).mp hlead, by exact_mod_cast hvalue⟩
    · rintro ⟨hfits, hvalue⟩
      rw [(cast_eq_iff type _).mpr hfits]
      exact_mod_cast hvalue

end

/-- Digits are parsed as the claimed type has it if and only if the number fits the type or is too large
for the type it is read in; and then a content is set to it or rejected, if nothing but zeros stands
behind a point. -/
theorem numbers_checked_iff (platform : Platform) (type : NumberType) :
    (∀ digits, (∀ c ∈ digits, c.isDigit = true) → (ParsedExactly platform type digits ↔
      (digits ≠ [] → type.Checked platform (digitsValue digits)))) ∧
    ∀ {F D S : Type} (lib : ContentLibrary F D S) (text value : List Char),
      matchNumber text = some (.number type, value) →
        (SetExactly platform lib text type value ↔
          type.readLimit platform ≤ leadingNumber value ∨
            (type.Represents (leadingNumber value) ∧ (leadingNumber value : ℚ) = textValue value)) :=
  ⟨fun _ hdigits => parsedExactly_iff hdigits, fun lib _ _ h => setExactly_iff lib h⟩

/-- Where `long` has 64 bits. -/
def platform64 : Platform := ⟨64, Or.inr rfl⟩

/-- No file and no floating number. -/
def emptyLibrary : ContentLibrary Unit Unit Unit := ⟨fun _ => none, fun _ => none, fun _ => none⟩

theorem numbers_checked_int8 :
    (ParsedExactly platform64 .int8 "127".toList ↔
      ("127".toList ≠ [] → NumberType.int8.Checked platform64 (digitsValue "127".toList))) ∧
    (SetExactly platform64 emptyLibrary "^\"int8: 127\"".toList .int8 "127".toList ↔
      NumberType.int8.readLimit platform64 ≤ leadingNumber "127".toList ∨
        (NumberType.int8.Represents (leadingNumber "127".toList) ∧
          (leadingNumber "127".toList : ℚ) = textValue "127".toList)) :=
  ⟨(numbers_checked_iff platform64 .int8).1 "127".toList
      (List.all_eq_true.mp (by decide)),
    (numbers_checked_iff platform64 .int8).2 emptyLibrary "^\"int8: 127\"".toList "127".toList
      (by decide +kernel)⟩

/-- The number 300 is parsed as one of 8 bits, and is then 44. -/
theorem number_wraps :
    parseNumber platform64 .int8 "300".toList = some 44 ∧
      setupLinkContent platform64 emptyLibrary false "^\"int8: 300\"".toList =
        .ok (some (.number .int8 44)) ∧
      ¬ ParsedExactly platform64 .int8 "300".toList := by
  have hparse : parseNumber platform64 .int8 "300".toList = some 44 := by decide
  have hmatch : matchNumber "^\"int8: 300\"".toList = some (.number .int8, "300".toList) := by
    decide +kernel
  refine ⟨hparse, ?_, ?_⟩
  · simp only [setupLinkContent, hmatch, setLinkContentT, hparse]
    rfl
  · intro h
    have hdenotes := (h.2 44 hparse).2
    revert hdenotes
    decide

end ScMachine.Utils
