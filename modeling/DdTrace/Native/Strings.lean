import DdTrace.Lib.Utf16
import Mathlib.Algebra.Group.Nat.Defs

/-!
# `ToString` and `ToWSTRING`

The conversions of `string.cpp`, which the profiler and the native loader have in the same words.
On Windows a first attempt goes to a buffer of a fixed size; the second is made only if the first
fills the buffer, not if it fails for want of room. A string is converted there and back exactly
if its bytes have room in the buffer. Elsewhere every string is.
-/

namespace DdTrace.Native.Strings

open Lib

/-- `WideCharToMultiByte` and `MultiByteToWideChar` for UTF-8, without flags. A call yields what it
writes to a buffer of this size, as much as it returns: nothing, if it fails. -/
structure Win32 where
  wideCharToMultiByte : Text → Int32 → ℕ → List UInt8
  multiByteToWideChar : List UInt8 → Int32 → ℕ → Text

structure Miniutf where
  toUtf8 : Text → List UInt8
  toUtf16 : List UInt8 → Text

/-- `_WIN32` is defined, or not. -/
inductive Platform where
  | windows (api : Win32)
  | other (miniutf : Miniutf)

def tmpBufferSize : ℕ := 512

/-- What is in a buffer of this size, filled with zeros, to which a call has written. -/
def buffer {α : Type} [OfNat α 0] (size : ℕ) (written : List α) : List α :=
  written ++ List.replicate (size - written.length) 0

/-- A string made of a pointer ends in front of the first NUL. -/
def cStr (s : Text) : Text := s.takeWhile (· != 0)

def toString : Platform → Text → List UInt8
  | .windows api, wstr =>
    if wstr = [] then []
    else
      let tmpStr := api.wideCharToMultiByte wstr (.ofNat wstr.length) tmpBufferSize
      let sizeNeeded := tmpStr.length
      if sizeNeeded < tmpBufferSize then tmpStr
      else buffer sizeNeeded (api.wideCharToMultiByte wstr (.ofNat wstr.length) sizeNeeded)
  | .other miniutf, wstr => miniutf.toUtf8 (cStr wstr)

def toWSTRING : Platform → List UInt8 → Text
  | .windows api, str =>
    if str = [] then []
    else
      let tmpStr := api.multiByteToWideChar str (.ofNat str.length) tmpBufferSize
      let sizeNeeded := tmpStr.length
      if sizeNeeded < tmpBufferSize then tmpStr
      else buffer sizeNeeded (api.multiByteToWideChar str (.ofNat str.length) sizeNeeded)
  | .other miniutf, str => cStr (miniutf.toUtf16 str)

/-! ### What the conversions rest on -/

/-- What a conversion writes to a buffer of this size. -/
def fitting {α : Type} (size : ℕ) (l : List α) : List α := if l.length ≤ size then l else []

structure Win32.Documented (api : Win32) : Prop where
  wideCharToMultiByte : ∀ s count size, 0 < count → 0 < size →
    api.wideCharToMultiByte s count size = fitting size (utf8 (s.take count.toInt.toNat))
  /-- A length that is not positive is refused, or that of a string with its NUL. -/
  wideCharToMultiByte_of_le : ∀ s count, 0 ∉ s → count ≤ 0 →
    (∀ size, 0 < size → api.wideCharToMultiByte s count size = []) ∨
      ∀ size, 0 < size → api.wideCharToMultiByte s count size = fitting size (utf8 (s ++ [0]))
  multiByteToWideChar : ∀ cs size, cs ≠ [] → 0 < size →
    (cs.flatMap String.utf8EncodeChar).length < 2 ^ 31 →
    api.multiByteToWideChar (cs.flatMap String.utf8EncodeChar)
      (.ofNat (cs.flatMap String.utf8EncodeChar).length) size = fitting size (utf16 cs)

structure Miniutf.Documented (miniutf : Miniutf) : Prop where
  toUtf8 : ∀ s, miniutf.toUtf8 s = utf8 s
  toUtf16 : ∀ cs, miniutf.toUtf16 (cs.flatMap String.utf8EncodeChar) = utf16 cs

def Platform.Documented : Platform → Prop
  | .windows api => api.Documented
  | .other miniutf => miniutf.Documented

def Platform.isWindows : Platform → Bool
  | .windows _ => true
  | .other _ => false

/-- The string is converted there and back, through a string that is empty only if it is. -/
structure Platform.Faithful (platform : Platform) (w : Text) : Prop where
  toWSTRING_toString : toWSTRING platform (toString platform w) = w
  toString_ne_nil : w ≠ [] → toString platform w ≠ []

/-! ### On Windows -/

variable {api : Win32} {miniutf : Miniutf} {w : Text} {cs : List Char}

theorem fitting_of_le {α : Type} {size : ℕ} {l : List α} (h : l.length ≤ size) :
    fitting size l = l := if_pos h

theorem fitting_of_lt {α : Type} {size : ℕ} {l : List α} (h : size < l.length) :
    fitting size l = [] := if_neg (Nat.not_le_of_lt h)

/-- A call that always converts the same: the retry does not change the first attempt. -/
theorem retry {α : Type} [OfNat α 0] {call : ℕ → List α} {l : List α}
    (hcall : ∀ size, 0 < size → call size = fitting size l) :
    (if (call tmpBufferSize).length < tmpBufferSize then call tmpBufferSize
      else buffer (call tmpBufferSize).length (call (call tmpBufferSize).length))
      = fitting tmpBufferSize l := by
  have hsize : 0 < tmpBufferSize := by decide
  split
  · exact hcall tmpBufferSize hsize
  · rename_i hfull
    rw [hcall tmpBufferSize hsize] at hfull ⊢
    have hle : l.length ≤ tmpBufferSize := by
      by_contra hlong
      rw [fitting_of_lt (Nat.lt_of_not_le hlong), List.length_nil] at hfull
      exact hfull hsize
    rw [fitting_of_le hle] at hfull ⊢
    rw [hcall l.length (by omega), fitting_of_le (Nat.le_refl _), buffer, Nat.sub_self,
      List.replicate_zero, List.append_nil]

theorem ofNat_toInt {n : ℕ} (h : n < 2 ^ 31) : (Int32.ofNat n).toInt = n :=
  Int32.toInt_ofNat_of_lt h

/-- Every string is converted as some other, or not at all. -/
theorem toString_windows (hapi : api.Documented) (hnul : 0 ∉ w) :
    ∃ s, toString (.windows api) w = fitting tmpBufferSize (utf8 s) := by
  by_cases hw : w = []
  · exact ⟨[], by rw [toString, if_pos hw]; rfl⟩
  · rw [toString, if_neg hw]
    by_cases hpos : 0 < Int32.ofNat w.length
    · exact ⟨_, retry fun size hsize => hapi.wideCharToMultiByte w _ size hpos hsize⟩
    · rcases hapi.wideCharToMultiByte_of_le w _ hnul (Int32.not_lt.1 hpos) with hnone | hall
      · exact ⟨[], retry fun size hsize => hnone size hsize⟩
      · exact ⟨_, retry hall⟩

/-- A string whose length is an `int` is converted as it is. -/
theorem toString_of_lt (hapi : api.Documented) (hlt : w.length < 2 ^ 31) :
    toString (.windows api) w = fitting tmpBufferSize (utf8 w) := by
  by_cases hw : w = []
  · rw [toString, if_pos hw, hw]
    rfl
  · have hcount := ofNat_toInt hlt
    have hpos : 0 < Int32.ofNat w.length := by
      rw [Int32.lt_iff_toInt_lt, hcount]
      exact Int.natCast_pos.2 (List.length_pos_iff.2 hw)
    have htake : w.take (Int32.ofNat w.length).toInt.toNat = w := by
      rw [hcount, Int.toNat_natCast, List.take_length]
    rw [toString, if_neg hw]
    apply retry
    intro size hsize
    rw [hapi.wideCharToMultiByte w _ size hpos hsize, htake]

theorem toString_of_le (hapi : api.Documented) (hlen : (utf8 w).length ≤ tmpBufferSize) :
    toString (.windows api) w = utf8 w := by
  have hunits := (length_utf8 w).1
  have hsize : tmpBufferSize = 512 := rfl
  rw [toString_of_lt hapi (by omega), fitting_of_le hlen]

theorem toWSTRING_windows (hapi : api.Documented)
    (hlen : (cs.flatMap String.utf8EncodeChar).length ≤ tmpBufferSize) :
    toWSTRING (.windows api) (cs.flatMap String.utf8EncodeChar) = utf16 cs := by
  by_cases hcs : cs = []
  · rw [hcs]
    rfl
  · have hsize : tmpBufferSize = 512 := rfl
    have hunits := (length_utf8 (utf16 cs)).1
    rw [utf8_utf16] at hunits
    have hne : cs.flatMap String.utf8EncodeChar ≠ [] := by
      rw [← utf8_utf16]
      apply utf8_ne_nil
      intro hnil
      apply hcs
      rw [← decodeUtf16_utf16 cs, hnil, decodeUtf16]
    rw [toWSTRING, if_neg hne]
    refine (retry fun size hs => ?_).trans (fitting_of_le (hunits.trans hlen))
    exact hapi.multiByteToWideChar cs size hcs hs (by omega)

theorem faithful_windows_iff (hapi : api.Documented) (hw : isWellFormedUtf16 w = true)
    (hnul : 0 ∉ w) :
    (Platform.windows api).Faithful w ↔ (utf8 w).length ≤ tmpBufferSize := by
  constructor
  · rintro ⟨hback, -⟩
    obtain ⟨s, hs⟩ := toString_windows hapi hnul
    rw [hs] at hback
    rcases Nat.lt_or_ge tmpBufferSize (utf8 s).length with hlong | hle
    · -- nothing is left of the string, so it was empty
      rw [fitting_of_lt hlong, toWSTRING, if_pos rfl] at hback
      rw [← hback]
      exact Nat.zero_le _
    · rw [fitting_of_le hle] at hback
      have hchars : toWSTRING (.windows api) (utf8 s) = utf16 (decodeUtf16 s) :=
        toWSTRING_windows hapi hle
      rw [hchars] at hback
      rw [← hback, utf8_utf16]
      exact hle
  · intro hlen
    refine ⟨?_, fun hne => ?_⟩
    · have hchars : toWSTRING (.windows api) (utf8 w) = utf16 (decodeUtf16 w) :=
        toWSTRING_windows hapi hlen
      rw [toString_of_le hapi hlen, hchars, utf16_decodeUtf16 hw]
    · rw [toString_of_le hapi hlen]
      exact utf8_ne_nil hne

/-! ### Elsewhere -/

theorem cStr_eq_self (hnul : 0 ∉ w) : cStr w = w := by
  rw [cStr, List.takeWhile_eq_self_iff]
  intro c hc
  rw [bne_iff_ne]
  rintro rfl
  exact hnul hc

theorem faithful_other (hminiutf : miniutf.Documented) (hw : isWellFormedUtf16 w = true)
    (hnul : 0 ∉ w) : (Platform.other miniutf).Faithful w := by
  have hbytes : toString (.other miniutf) w = utf8 w := by
    rw [toString, cStr_eq_self hnul, hminiutf.toUtf8]
  refine ⟨?_, fun hne => ?_⟩
  · rw [hbytes, toWSTRING, utf8, hminiutf.toUtf16, utf16_decodeUtf16 hw, cStr_eq_self hnul]
  · rw [hbytes]
    exact utf8_ne_nil hne

/-- A well-formed string without NUL is converted there and back exactly if, on Windows, its bytes
have room in the buffer of the first attempt. -/
theorem conversion_faithful_iff (platform : Platform) (hplatform : platform.Documented) (w : Text)
    (hw : isWellFormedUtf16 w = true) (hnul : 0 ∉ w) :
    platform.Faithful w ↔ (platform.isWindows = true → (utf8 w).length ≤ tmpBufferSize) := by
  cases platform with
  | windows api =>
    exact (faithful_windows_iff hplatform hw hnul).trans ⟨fun h _ => h, fun h => h rfl⟩
  | other miniutf =>
    exact ⟨fun _ h => absurd h Bool.false_ne_true, fun _ => faithful_other hplatform hw hnul⟩

/-! ### A string of 513 bytes -/

/-- The characters of bytes that are UTF-8. -/
def decodeUtf8 (bytes : List UInt8) : List Char :=
  (bytes.toByteArray.utf8Decode?.getD #[]).toList

theorem decodeUtf8_flatMap (cs : List Char) :
    decodeUtf8 (cs.flatMap String.utf8EncodeChar) = cs := by
  have hdecode : (cs.flatMap String.utf8EncodeChar).toByteArray.utf8Decode? = some cs.toArray :=
    List.utf8Decode?_utf8Encode
  rw [decodeUtf8, hdecode]
  rfl

def win32 : Win32 where
  wideCharToMultiByte s count size :=
    if 0 < count then fitting size (utf8 (s.take count.toInt.toNat))
    else if count = 0 then [] else fitting size (utf8 (s ++ [0]))
  multiByteToWideChar bytes count size :=
    if 0 < count then fitting size (utf16 (decodeUtf8 (bytes.take count.toInt.toNat))) else []

theorem win32_documented : win32.Documented where
  wideCharToMultiByte s count size hcount _ := if_pos hcount
  wideCharToMultiByte_of_le s count _ hcount := by
    have hnot : ¬ 0 < count := Int32.not_lt.2 hcount
    by_cases hzero : count = 0
    · exact .inl fun size _ => (if_neg hnot).trans (if_pos hzero)
    · exact .inr fun size _ => (if_neg hnot).trans (if_neg hzero)
  multiByteToWideChar cs size hcs _ hlen := by
    have hcount := ofNat_toInt hlen
    have hpos : 0 < Int32.ofNat (cs.flatMap String.utf8EncodeChar).length := by
      rw [Int32.lt_iff_toInt_lt, hcount, ← utf8_utf16]
      apply Int.natCast_pos.2
      apply List.length_pos_iff.2
      apply utf8_ne_nil
      intro hnil
      apply hcs
      rw [← decodeUtf16_utf16 cs, hnil, decodeUtf16]
    dsimp only [win32]
    rw [if_pos hpos, hcount, Int.toNat_natCast, List.take_length, decodeUtf8_flatMap]

theorem conversion_faithful_abc : (Platform.windows win32).Faithful (text "abc") ↔
    ((Platform.windows win32).isWindows = true → (utf8 (text "abc")).length ≤ tmpBufferSize) :=
  conversion_faithful_iff (.windows win32) win32_documented (text "abc") (by decide) (by decide)

def letters (n : ℕ) : Text := List.replicate n (unit 'a')

theorem ascii_letters (n : ℕ) : ∀ u ∈ letters n, u < 0x80 := by
  intro u hu
  rw [List.eq_of_mem_replicate hu]
  decide

/-- The buffer has no room for the bytes, and the string is converted to the empty one. -/
theorem conversion_loses_letters :
    (¬ ∀ (platform : Platform), platform.Documented → ∀ w : Text,
      isWellFormedUtf16 w = true → 0 ∉ w → platform.Faithful w) ∧
      toString (.windows win32) (letters 513) = [] := by
  have hlen : (utf8 (letters 513)).length = 513 := by
    rw [length_utf8_eq_iff.2 (ascii_letters 513), letters, List.length_replicate]
  have hwell : isWellFormedUtf16 (letters 513) = true :=
    isWellFormedUtf16_of_ascii (ascii_letters 513)
  have hnul : 0 ∉ letters 513 := by
    intro hmem
    exact absurd (List.eq_of_mem_replicate hmem) (by decide)
  have hnot : ¬ (Platform.windows win32).Faithful (letters 513) := by
    rw [faithful_windows_iff win32_documented hwell hnul, hlen]
    decide
  refine ⟨fun h => hnot (h (.windows win32) win32_documented _ hwell hnul), ?_⟩
  rw [toString_of_lt win32_documented (by rw [letters, List.length_replicate]; decide)]
  exact fitting_of_lt (by rw [hlen]; decide)

end DdTrace.Native.Strings
