import Mathlib.Tactic
import OsmPolygonWikidata.Basic.PyString

/-! # Percent-decoding

`urllib.parse.unquote`: each run of ASCII characters becomes octets, an escape `%HH` being one octet,
and the octets are decoded as UTF-8. Octets that are no UTF-8 become U+FFFD, one for each longest
sequence that could have begun a character.

Decoding never makes a text longer, and makes it shorter unless it leaves it alone
(`unquote_eq_or_shorter`).
-/

namespace Python

/-! ## UTF-8 with replacement -/

/-- U+FFFD. -/
def replacement : Char := Char.ofNat 0xFFFD

/-- Where the decoder stands: between characters, or in one of which `owed` octets are missing. The
next one lies between `low` and `high`. -/
inductive Pending where
  | start
  | tail (low high owed value : Nat)

/-- The first octet of a character. -/
def leadOctet (b : Nat) : List Char × Pending :=
  if b < 0x80 then ([Char.ofNat b], .start)
  else if 0xC2 ≤ b ∧ b ≤ 0xDF then ([], .tail 0x80 0xBF 1 (b - 0xC0))
  else if b = 0xE0 then ([], .tail 0xA0 0xBF 2 0)
  else if b = 0xED then ([], .tail 0x80 0x9F 2 0xD)
  else if 0xE1 ≤ b ∧ b ≤ 0xEF then ([], .tail 0x80 0xBF 2 (b - 0xE0))
  else if b = 0xF0 then ([], .tail 0x90 0xBF 3 0)
  else if 0xF1 ≤ b ∧ b ≤ 0xF3 then ([], .tail 0x80 0xBF 3 (b - 0xF0))
  else if b = 0xF4 then ([], .tail 0x80 0x8F 3 4)
  else ([replacement], .start)

/-- One octet. One that does not go on the character begins another. -/
def decodeOctet : Pending → Nat → List Char × Pending
  | .start, b => leadOctet b
  | .tail low high owed value, b =>
    if low ≤ b ∧ b ≤ high then
      if owed ≤ 1 then ([Char.ofNat (64 * value + (b - 0x80))], .start)
      else ([], .tail 0x80 0xBF (owed - 1) (64 * value + (b - 0x80)))
    else (replacement :: (leadOctet b).1, (leadOctet b).2)

/-- `bytes.decode("utf-8", "replace")`. -/
def decodeUtf8 : Pending → List Nat → List Char
  | .start, [] => []
  | .tail _ _ _ _, [] => [replacement]
  | pending, b :: bs =>
    (decodeOctet pending b).1 ++ decodeUtf8 (decodeOctet pending b).2 bs

/-! ## Escapes -/

def isAscii (c : Char) : Bool := c.toNat < 128

def hexDigit (c : Char) : Option Nat :=
  if '0' ≤ c ∧ c ≤ '9' then some (c.toNat - '0'.toNat)
  else if 'a' ≤ c ∧ c ≤ 'f' then some (c.toNat - 'a'.toNat + 10)
  else if 'A' ≤ c ∧ c ≤ 'F' then some (c.toNat - 'A'.toNat + 10)
  else none

/-- `unquote_to_bytes`. -/
def octets : List Char → List Nat
  | '%' :: a :: b :: rest =>
    match hexDigit a, hexDigit b with
    | some high, some low => (16 * high + low) :: octets rest
    | _, _ => '%'.toNat :: octets (a :: b :: rest)
  | c :: rest => c.toNat :: octets rest
  | [] => []

/-- The runs of ASCII characters are decoded one by one; `run` is the one in progress. -/
def unquoteRuns (run : List Char) : List Char → List Char
  | [] => decodeUtf8 .start (octets run)
  | c :: cs =>
    if isAscii c then unquoteRuns (run ++ [c]) cs
    else decodeUtf8 .start (octets run) ++ c :: unquoteRuns [] cs

/-- `urllib.parse.unquote`. -/
def unquote (cs : List Char) : List Char := if '%' ∈ cs then unquoteRuns [] cs else cs

/-! ## The length of a decoded text -/

variable {pending : Pending} {bs : List Nat} {cs run : List Char}

/-- The characters that are certain to come. -/
def Pending.due : Pending → Nat
  | .start => 0
  | .tail _ _ _ _ => 1

theorem leadOctet_due (b : Nat) : (leadOctet b).1.length + (leadOctet b).2.due ≤ 1 := by
  unfold leadOctet
  split_ifs <;> simp [Pending.due]

theorem decodeOctet_due (pending : Pending) (b : Nat) :
    (decodeOctet pending b).1.length + (decodeOctet pending b).2.due ≤ pending.due + 1 := by
  have hlead := leadOctet_due b
  cases pending with
  | start => exact hlead.trans (by omega)
  | tail low high owed value =>
    simp only [decodeOctet]
    split_ifs
    · simp [Pending.due]
    · simp [Pending.due]
    · show (leadOctet b).1.length + 1 + (leadOctet b).2.due ≤ 1 + 1
      omega

theorem length_decodeUtf8_le (pending : Pending) (bs : List Nat) :
    (decodeUtf8 pending bs).length ≤ pending.due + bs.length := by
  induction bs generalizing pending with
  | nil => cases pending <;> simp [decodeUtf8, Pending.due]
  | cons b bs ih =>
    have hstep := decodeOctet_due pending b
    have hrest := ih (decodeOctet pending b).2
    have hdecode : decodeUtf8 pending (b :: bs)
        = (decodeOctet pending b).1 ++ decodeUtf8 (decodeOctet pending b).2 bs := by
      cases pending <;> rfl
    rw [hdecode, List.length_append, List.length_cons]
    omega

theorem decodeUtf8_ascii (hascii : ∀ c ∈ cs, isAscii c = true) :
    decodeUtf8 .start (cs.map Char.toNat) = cs := by
  induction cs with
  | nil => rfl
  | cons c cs ih =>
    have hc : c.toNat < 0x80 := by simpa [isAscii] using hascii c List.mem_cons_self
    have hlead : leadOctet c.toNat = ([c], .start) := by
      rw [leadOctet, if_pos hc, Char.ofNat_toNat]
    show (leadOctet c.toNat).1 ++ decodeUtf8 (leadOctet c.toNat).2 (cs.map Char.toNat) = c :: cs
    rw [hlead, ih (fun d hd => hascii d (List.mem_cons_of_mem c hd))]
    rfl

theorem octets_eq_or_shorter (cs : List Char) :
    octets cs = cs.map Char.toNat ∨ (octets cs).length < cs.length := by
  fun_induction octets cs with
  | case1 a b rest high low hhigh hlow ih =>
    right
    have hrest : (octets rest).length ≤ rest.length := by
      rcases ih with heq | hlt
      · rw [heq, List.length_map]
      · exact hlt.le
    simp only [List.length_cons]
    omega
  | case2 a b rest hnot ih =>
    rcases ih with heq | hlt
    · left
      rw [heq]
      rfl
    · right
      simp only [List.length_cons] at hlt ⊢
      omega
  | case3 c rest hnot ih =>
    rcases ih with heq | hlt
    · left
      rw [heq]
      rfl
    · right
      simp only [List.length_cons]
      omega
  | case4 => exact Or.inl rfl

theorem decode_octets_eq_or_shorter (hascii : ∀ c ∈ run, isAscii c = true) :
    decodeUtf8 .start (octets run) = run
      ∨ (decodeUtf8 .start (octets run)).length < run.length := by
  rcases octets_eq_or_shorter run with heq | hlt
  · left
    rw [heq]
    exact decodeUtf8_ascii hascii
  · right
    have hle := length_decodeUtf8_le .start (octets run)
    simp only [Pending.due] at hle
    omega

theorem unquoteRuns_eq_or_shorter (hascii : ∀ c ∈ run, isAscii c = true) :
    unquoteRuns run cs = run ++ cs ∨ (unquoteRuns run cs).length < run.length + cs.length := by
  induction cs generalizing run with
  | nil =>
    rw [List.append_nil]
    exact decode_octets_eq_or_shorter hascii
  | cons c cs ih =>
    unfold unquoteRuns
    split_ifs with hc
    · have hrun : ∀ d ∈ run ++ [c], isAscii d = true := by
        intro d hd
        rcases List.mem_append.mp hd with hd | hd
        · exact hascii d hd
        · rw [List.mem_singleton.mp hd]
          exact hc
      rcases ih hrun with heq | hlt
      · left
        rw [heq, List.append_assoc, List.singleton_append]
      · right
        rw [List.length_append, List.length_singleton] at hlt
        rw [List.length_cons]
        omega
    · have hnil : ∀ d ∈ ([] : List Char), isAscii d = true := by simp
      have hrun := decode_octets_eq_or_shorter hascii
      have hcs := ih hnil
      rw [List.nil_append] at hcs
      by_cases hsame : decodeUtf8 .start (octets run) = run ∧ unquoteRuns [] cs = cs
      · left
        rw [hsame.1, hsame.2]
      · right
        -- neither part is longer, and one of them is shorter
        have hrunLe : (decodeUtf8 .start (octets run)).length ≤ run.length := by
          rcases hrun with heq | hlt
          · rw [heq]
          · exact hlt.le
        have hcsLe : (unquoteRuns [] cs).length ≤ cs.length := by
          rcases hcs with heq | hlt
          · rw [heq]
          · simpa using hlt.le
        rw [List.length_append, List.length_cons, List.length_cons]
        rcases hrun with heq | hlt
        · have hlt := hcs.resolve_left (fun h => hsame ⟨heq, h⟩)
          rw [List.length_nil] at hlt
          omega
        · omega

/-- **Decoding** leaves a text alone or makes it shorter. -/
theorem unquote_eq_or_shorter (cs : List Char) :
    unquote cs = cs ∨ (unquote cs).length < cs.length := by
  unfold unquote
  split_ifs
  · have h := @unquoteRuns_eq_or_shorter cs [] (by simp)
    simpa using h
  · exact Or.inl rfl

example : unquote "a%20b%C3%A9%zz%FF".toList = "a bé%zz\uFFFD".toList := by decide

theorem length_unquote_le (cs : List Char) : (unquote cs).length ≤ cs.length := by
  rcases unquote_eq_or_shorter cs with heq | hlt
  · rw [heq]
  · exact hlt.le

end Python
