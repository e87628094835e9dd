import Fastrace.Span
import Fastrace.Radix

/-!
# Text formats of the ids and of the span context (`collector/id.rs`)

An id is written in hexadecimal, padded with zeros to the width of its type, by `Display`, by `serde` and in the
`traceparent` header; it is read back by `from_str_radix` in all three places.  The data format of `serde` is a
parameter that writes and reads strings.

`textFormats_round_trip`: what is written is read back, and the header has the four fields of the standard.
`decodeW3cTraceparent_eq_some_iff`: the headers that the decoder accepts.  It leaves the fields to `from_str_radix`, so
they are more than those the standard allows.
-/

namespace Fastrace

/-! ### Ids -/

/-- A data format as `serde` sees it, reduced to strings, and the error it makes of a parse error. -/
structure DataFormat (δ ε : Type) where
  serializeStr : String → Except ε δ
  deserializeString : δ → Except ε String
  custom : IntErrorKind → ε

variable {δ ε : Type} {w : Nat}

/-- `format!("{:0wx}")` of an id. -/
def displayId (width : Nat) (x : BitVec w) : String := String.ofList (lowerHex width x.toNat)

def parseId (w : Nat) (s : String) : Except IntErrorKind (BitVec w) := fromStrRadix w s.toList

def DataFormat.serializeId (format : DataFormat δ ε) (width : Nat) (x : BitVec w) : Except ε δ :=
  format.serializeStr (displayId width x)

def DataFormat.deserializeId (format : DataFormat δ ε) (w : Nat) (d : δ) : Except ε (BitVec w) := do
  let s ← format.deserializeString d
  (parseId w s).mapError format.custom

def TraceId.display (id : TraceId) : String := displayId 32 id.val

def TraceId.fromStr (s : String) : Except IntErrorKind TraceId := (parseId 128 s).map TraceId.mk

def TraceId.serialize (format : DataFormat δ ε) (id : TraceId) : Except ε δ := format.serializeId 32 id.val

def TraceId.deserialize (format : DataFormat δ ε) (d : δ) : Except ε TraceId :=
  (format.deserializeId 128 d).map TraceId.mk

def SpanId.display (id : SpanId) : String := displayId 16 id.val

def SpanId.fromStr (s : String) : Except IntErrorKind SpanId := (parseId 64 s).map SpanId.mk

def SpanId.serialize (format : DataFormat δ ε) (id : SpanId) : Except ε δ := format.serializeId 16 id.val

def SpanId.deserialize (format : DataFormat δ ε) (d : δ) : Except ε SpanId :=
  (format.deserializeId 64 d).map SpanId.mk

/-! ### The span context -/

/-- The format string `00-{}-{}-{}` with its fields. -/
def traceparent (traceId spanId flags : List Char) : List Char :=
  ['0', '0'] ++ '-' :: (traceId ++ '-' :: (spanId ++ '-' :: flags))

namespace SpanContext

def new (traceId : TraceId) (spanId : SpanId) : SpanContext where
  traceId := traceId
  spanId := spanId
  sampled := true

/-- The method `sampled`. -/
def withSampled (context : SpanContext) (sampled : Bool) : SpanContext := { context with sampled := sampled }

def decodeW3cTraceparent (traceparent : String) : Option SpanContext :=
  match traceparent.toList.splitOn '-' with
  | [['0', '0'], traceId, spanId, sampled] => do
    let traceId ← (fromStrRadix 128 traceId).toOption
    let spanId ← (fromStrRadix 64 spanId).toOption
    let sampled ← (fromStrRadix 8 sampled).toOption
    some ((SpanContext.new ⟨traceId⟩ ⟨spanId⟩).withSampled (sampled &&& 1 == 1))
  | _ => none

def encodeW3cTraceparent (context : SpanContext) : String :=
  String.ofList (traceparent (lowerHex 32 context.traceId.val.toNat) (lowerHex 16 context.spanId.val.toNat)
    (lowerHex 2 context.sampled.toNat))

end SpanContext

/-! ### Ids are read back -/

/-- Every string that the format has written is read back. -/
def DataFormat.RoundTrips (format : DataFormat δ ε) : Prop :=
  ∀ s d, format.serializeStr s = .ok d → format.deserializeString d = .ok s

private theorem parseId_displayId (width : Nat) (x : BitVec w) : parseId w (displayId width x) = .ok x := by
  rw [parseId, displayId, String.toList_ofList, fromStrRadix_lowerHex]

private theorem deserializeId_of_serializeId {format : DataFormat δ ε} (hformat : format.RoundTrips) {width : Nat}
    {x : BitVec w} {d : δ} (h : format.serializeId width x = .ok d) : format.deserializeId w d = .ok x := by
  have hread := hformat _ d h
  simp only [DataFormat.deserializeId, hread, parseId_displayId, bind, Except.bind, Except.mapError]

/-! ### The fields of a header -/

variable {s : String} {c : SpanContext} {t u v : List Char}

private theorem not_mem_of_isNumber {n : Nat} (h : IsNumber t n) : '-' ∉ t := by
  obtain ⟨digits, ht, -, hdigits, -⟩ := h
  have hdash : '-' ∉ digits := by
    intro hmem
    exact absurd (hdigits _ hmem) (by decide)
  rcases ht with rfl | rfl
  · exact hdash
  · simpa using hdash

private theorem traceparent_eq_intercalate (t u v : List Char) :
    traceparent t u v = List.intercalate ['-'] [['0', '0'], t, u, v] := by
  simp [traceparent]

private theorem splitOn_traceparent (ht : '-' ∉ t) (hu : '-' ∉ u) (hv : '-' ∉ v) :
    (traceparent t u v).splitOn '-' = [['0', '0'], t, u, v] := by
  rw [traceparent_eq_intercalate]
  apply List.splitOn_intercalate
  · simp [ht, hu, hv]
  · simp

private theorem eq_traceparent_of_splitOn (h : s.toList.splitOn '-' = [['0', '0'], t, u, v]) :
    s.toList = traceparent t u v := by
  rw [traceparent_eq_intercalate, ← h, List.intercalate_splitOn]

/-- The decoder in terms of the fields. -/
private theorem decode_iff_fields : SpanContext.decodeW3cTraceparent s = some c ↔
    ∃ t u v x, s.toList.splitOn '-' = [['0', '0'], t, u, v] ∧ fromStrRadix 128 t = .ok c.traceId.val ∧
      fromStrRadix 64 u = .ok c.spanId.val ∧ fromStrRadix 8 v = .ok x ∧ c.sampled = (x &&& 1 == 1) := by
  unfold SpanContext.decodeW3cTraceparent
  constructor
  · intro h
    split at h
    · next t u v hfields =>
      cases ht : fromStrRadix 128 t with
      | error e => simp [ht, Except.toOption] at h
      | ok traceId =>
        cases hu : fromStrRadix 64 u with
        | error e => simp [ht, hu, Except.toOption] at h
        | ok spanId =>
          cases hv : fromStrRadix 8 v with
          | error e => simp [ht, hu, hv, Except.toOption] at h
          | ok x =>
            simp only [ht, hu, hv, Except.toOption, Option.bind_eq_bind, Option.bind_some, Option.some.injEq] at h
            subst h
            exact ⟨t, u, v, x, hfields, ht, hu, hv, rfl⟩
    · cases h
  · rintro ⟨t, u, v, x, hfields, ht, hu, hv, hsampled⟩
    rw [hfields]
    simp only [ht, hu, hv, Except.toOption, Option.bind_eq_bind, Option.bind_some, Option.some.injEq]
    unfold SpanContext.withSampled SpanContext.new
    rw [← hsampled]

/-- The lowest bit of the flags. -/
private theorem and_one_beq_one (x : BitVec 8) : (x &&& 1 == 1) = decide (x.toNat % 2 = 1) := by
  rw [Bool.eq_iff_iff, beq_iff_eq, decide_eq_true_eq, ← BitVec.toNat_inj, BitVec.toNat_and]
  exact Iff.of_eq (congrArg (· = 1) (Nat.and_one_is_mod x.toNat))

/-- A header whose fields are numbers of the right size is decoded. -/
private theorem decode_traceparent {n : Nat} (hs : s.toList = traceparent t u v) (ht : IsNumber t c.traceId.val.toNat)
    (hu : IsNumber u c.spanId.val.toNat) (hv : IsNumber v n) (hn : n < 2 ^ 8)
    (hsampled : c.sampled = decide (n % 2 = 1)) : SpanContext.decodeW3cTraceparent s = some c := by
  rw [decode_iff_fields]
  have htoNat : (BitVec.ofNat 8 n).toNat = n := by
    rw [BitVec.toNat_ofNat, Nat.mod_eq_of_lt hn]
  refine ⟨t, u, v, BitVec.ofNat 8 n, ?_, fromStrRadix_eq_ok_iff.mpr ht, fromStrRadix_eq_ok_iff.mpr hu, ?_, ?_⟩
  · rw [hs]
    exact splitOn_traceparent (not_mem_of_isNumber ht) (not_mem_of_isNumber hu) (not_mem_of_isNumber hv)
  · rw [fromStrRadix_eq_ok_iff, htoNat]
    exact hv
  · rw [and_one_beq_one, htoNat, hsampled]

/-! ### What the decoder accepts -/

/-- The decoder accepts the version `00` and three fields with numbers that fit their types, and nothing after them. -/
theorem decodeW3cTraceparent_eq_some_iff (s : String) (c : SpanContext) :
    SpanContext.decodeW3cTraceparent s = some c ↔
      ∃ traceId spanId flags n, s.toList = traceparent traceId spanId flags ∧
        IsNumber traceId c.traceId.val.toNat ∧ IsNumber spanId c.spanId.val.toNat ∧
        IsNumber flags n ∧ n < 2 ^ 8 ∧ c.sampled = decide (n % 2 = 1) := by
  constructor
  · intro h
    obtain ⟨t, u, v, x, hfields, ht, hu, hv, hsampled⟩ := decode_iff_fields.mp h
    rw [fromStrRadix_eq_ok_iff] at ht hu hv
    rw [and_one_beq_one] at hsampled
    exact ⟨t, u, v, x.toNat, eq_traceparent_of_splitOn hfields, ht, hu, hv, x.isLt, hsampled⟩
  · rintro ⟨t, u, v, n, hs, ht, hu, hv, hn, hsampled⟩
    exact decode_traceparent hs ht hu hv hn hsampled

/-- A field of the standard: so many lower-case digits. -/
def IsField (width : Nat) (t : List Char) : Prop := t.length = width ∧ ∀ c ∈ t, isLowerHexDigit c = true

/-- The headers of version `00` of the standard. -/
def IsTraceparent (s : String) : Prop :=
  ∃ t u v, s.toList = traceparent t u v ∧ IsField 32 t ∧ IsField 16 u ∧ IsField 2 v

private theorem IsTraceparent.length (h : IsTraceparent s) : s.length = 55 := by
  obtain ⟨t, u, v, hs, ht, hu, hv⟩ := h
  have ht := ht.1
  have hu := hu.1
  have hv := hv.1
  rw [← String.length_toList, hs]
  simp only [traceparent, List.length_append, List.length_cons, List.length_nil]
  omega

/-- The fields of this header are short, with a sign and upper-case digits, and still it is decoded. -/
theorem decodeW3cTraceparent_lenient :
    SpanContext.decodeW3cTraceparent "00-+1-AB-1" = some ⟨⟨1⟩, ⟨0xab⟩, true⟩ ∧ ¬ IsTraceparent "00-+1-AB-1" := by
  constructor
  · decide
  · intro h
    have := h.length
    revert this
    decide

/-! ### Round trips -/

private theorem isField_lowerHex {width n : Nat} (hwidth : 0 < width) (h : n < 16 ^ width) :
    IsField width (lowerHex width n) :=
  ⟨length_lowerHex hwidth h, fun _ => isLowerHexDigit_of_mem⟩

private theorem isNumber_of_isField {width : Nat} (hwidth : 0 < width) (h : IsField width t) :
    IsNumber t (hexValue t) := by
  refine ⟨t, .inl rfl, ?_, ?_, rfl⟩
  · rintro rfl
    exact Nat.ne_of_lt hwidth h.1
  · intro c hc
    exact isHexDigit_of_lower (h.2 c hc)

/-- Every header of the standard is decoded. -/
theorem decode_isSome_of_isTraceparent (h : IsTraceparent s) :
    (SpanContext.decodeW3cTraceparent s).isSome = true := by
  obtain ⟨t, u, v, hs, ht, hu, hv⟩ := h
  have htlt : hexValue t < 2 ^ 128 := by simpa [ht.1] using hexValue_lt t
  have hult : hexValue u < 2 ^ 64 := by simpa [hu.1] using hexValue_lt u
  have hvlt : hexValue v < 2 ^ 8 := by simpa [hv.1] using hexValue_lt v
  let context : SpanContext :=
    ⟨⟨BitVec.ofNat 128 (hexValue t)⟩, ⟨BitVec.ofNat 64 (hexValue u)⟩, decide (hexValue v % 2 = 1)⟩
  have htnum : IsNumber t context.traceId.val.toNat := by
    rw [BitVec.toNat_ofNat, Nat.mod_eq_of_lt htlt]
    exact isNumber_of_isField (by decide) ht
  have hunum : IsNumber u context.spanId.val.toNat := by
    rw [BitVec.toNat_ofNat, Nat.mod_eq_of_lt hult]
    exact isNumber_of_isField (by decide) hu
  have hvnum : IsNumber v (hexValue v) := isNumber_of_isField (by decide) hv
  rw [decode_traceparent hs htnum hunum hvnum hvlt rfl]
  rfl

private theorem isNumber_flags (hlength : v.length = 2) (hv : ∀ c ∈ v, isHexDigit c = true) :
    IsNumber v (hexValue v) ∧ hexValue v < 2 ^ 8 := by
  constructor
  · refine ⟨v, .inl rfl, ?_, hv, rfl⟩
    rintro rfl
    cases hlength
  · simpa [hlength] using hexValue_lt v

/-- The flags written after the ids of a context are decoded to their lowest bit. -/
private theorem decode_with_flags (c : SpanContext) (hlength : v.length = 2) (hv : ∀ d ∈ v, isHexDigit d = true) :
    SpanContext.decodeW3cTraceparent
        (String.ofList (traceparent (lowerHex 32 c.traceId.val.toNat) (lowerHex 16 c.spanId.val.toNat) v)) =
      some (c.withSampled (decide (hexValue v % 2 = 1))) := by
  obtain ⟨hnum, hlt⟩ := isNumber_flags hlength hv
  exact decode_traceparent String.toList_ofList (isNumber_lowerHex _ _) (isNumber_lowerHex _ _) hnum hlt rfl

/-- What follows the last dash of a header is its last field. -/
private theorem last_field_eq {p q : List Char} (hu : '-' ∉ u) (hv : '-' ∉ v) (h : p ++ '-' :: u = q ++ '-' :: v) :
    u = v := by
  have hsplit := congrArg (List.splitOn '-') h
  rw [List.splitOn_append_cons_self, List.splitOn_append_cons_self, List.splitOn_eq_singleton hu,
    List.splitOn_eq_singleton hv] at hsplit
  exact List.singleton_inj.mp (List.append_inj_right' hsplit rfl)

/-- Whatever header is decoded, two digits at its end give the sampled flag. -/
private theorem sampled_eq_of_decode {p : List Char} (h : SpanContext.decodeW3cTraceparent s = some c)
    (hs : s.toList = p ++ '-' :: v) (hlength : v.length = 2) (hv : ∀ d ∈ v, isHexDigit d = true) :
    c.sampled = decide (hexValue v % 2 = 1) := by
  obtain ⟨t, u, v', x, hfields, -, -, hx, hsampled⟩ := decode_iff_fields.mp h
  rw [fromStrRadix_eq_ok_iff] at hx
  obtain ⟨hnum, hlt⟩ := isNumber_flags hlength hv
  have hshape : p ++ '-' :: v = ['0', '0'] ++ '-' :: t ++ '-' :: u ++ '-' :: v' := by
    rw [← hs, eq_traceparent_of_splitOn hfields]
    simp [traceparent]
  obtain rfl := last_field_eq (not_mem_of_isNumber hnum) (not_mem_of_isNumber hx) hshape
  have hparse := fromStrRadix_eq_ok_iff.mpr hx
  have hvalue : fromStrRadix 8 v = .ok (BitVec.ofNat 8 (hexValue v)) := by
    rw [fromStrRadix_eq_ok_iff, BitVec.toNat_ofNat, Nat.mod_eq_of_lt hlt]
    exact hnum
  rw [hvalue] at hparse
  rw [hsampled, and_one_beq_one, ← Except.ok.inj hparse, BitVec.toNat_ofNat, Nat.mod_eq_of_lt hlt]

private theorem encode_isTraceparent (c : SpanContext) : IsTraceparent c.encodeW3cTraceparent := by
  refine ⟨_, _, _, String.toList_ofList, ?_, ?_, ?_⟩
  · exact isField_lowerHex (by decide) c.traceId.val.isLt
  · exact isField_lowerHex (by decide) c.spanId.val.isLt
  · have hbit := Bool.toNat_lt c.sampled
    exact isField_lowerHex (by decide) (by omega)

theorem decode_encode (c : SpanContext) : SpanContext.decodeW3cTraceparent c.encodeW3cTraceparent = some c := by
  have hbit := Bool.toNat_lt c.sampled
  apply decode_traceparent String.toList_ofList (isNumber_lowerHex _ _) (isNumber_lowerHex _ _)
    (isNumber_lowerHex _ _) (by omega)
  cases c.sampled <;> rfl

/-- Contexts and ids are read back from what is written of them, and the header has 55 characters in the four fields
of the standard; of two digits in the place of the flags, the lowest bit is the sampled flag. -/
theorem textFormats_round_trip (format : DataFormat δ ε) (hformat : format.RoundTrips) :
    (∀ c : SpanContext, SpanContext.decodeW3cTraceparent c.encodeW3cTraceparent = some c ∧
      c.encodeW3cTraceparent.length = 55 ∧ IsTraceparent c.encodeW3cTraceparent ∧
      ∀ flags, flags.length = 2 → (∀ d ∈ flags, isHexDigit d = true) →
        SpanContext.decodeW3cTraceparent (String.ofList
            (traceparent (lowerHex 32 c.traceId.val.toNat) (lowerHex 16 c.spanId.val.toNat) flags)) =
          some (c.withSampled (decide (hexValue flags % 2 = 1)))) ∧
    (∀ s c p flags, SpanContext.decodeW3cTraceparent s = some c → s.toList = p ++ '-' :: flags →
      flags.length = 2 → (∀ d ∈ flags, isHexDigit d = true) → c.sampled = decide (hexValue flags % 2 = 1)) ∧
    (∀ id : TraceId, TraceId.fromStr id.display = .ok id ∧
      ∀ d, id.serialize format = .ok d → TraceId.deserialize format d = .ok id) ∧
    (∀ id : SpanId, SpanId.fromStr id.display = .ok id ∧
      ∀ d, id.serialize format = .ok d → SpanId.deserialize format d = .ok id) := by
  refine ⟨?_, ?_, ?_, ?_⟩
  · intro c
    exact ⟨decode_encode c, (encode_isTraceparent c).length, encode_isTraceparent c,
      fun flags => decode_with_flags c⟩
  · intro s c p flags h hs hlength hflags
    exact sampled_eq_of_decode h hs hlength hflags
  · intro id
    constructor
    · rw [TraceId.fromStr, TraceId.display, parseId_displayId]
      rfl
    · intro d hd
      rw [TraceId.deserialize, deserializeId_of_serializeId hformat hd]
      rfl
  · intro id
    constructor
    · rw [SpanId.fromStr, SpanId.display, parseId_displayId]
      rfl
    · intro d hd
      rw [SpanId.deserialize, deserializeId_of_serializeId hformat hd]
      rfl

/-- Strings between quotation marks, as JSON writes a string of digits. -/
def quoted : DataFormat String Unit where
  serializeStr s := .ok (String.ofList ('"' :: s.toList ++ ['"']))
  deserializeString d := .ok (String.ofList d.toList.tail.dropLast)
  custom _ := ()

private theorem quoted_roundTrips : quoted.RoundTrips := by
  intro s d h
  rw [← Except.ok.inj h]
  simp [quoted]

theorem textFormats_round_trip_quoted :
    (∀ c : SpanContext, SpanContext.decodeW3cTraceparent c.encodeW3cTraceparent = some c) ∧
      TraceId.deserialize quoted "\"0000000000000000000000000000000c\"" = .ok ⟨12⟩ := by
  have h := textFormats_round_trip quoted quoted_roundTrips
  exact ⟨fun c => (h.1 c).1, (h.2.2.1 ⟨12⟩).2 _ rfl⟩

end Fastrace
