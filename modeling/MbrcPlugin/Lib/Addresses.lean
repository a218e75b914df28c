import Mathlib.Data.List.Basic
import Mathlib.Data.Nat.Digits.Lemmas

/-!
# Internet addresses and their texts

An IPv4 address has one text; an IPv6 address has many, of which `display` is the one that is
written: no zeros in front, small letters, and the first longest run of zero groups left out.  What
is written is read back (`parseIp_display`), and of an IPv4 address nothing else is
(`display_of_parseIp`).
-/

namespace Net

/-! ## Numbers -/

/-- The value of a digit, in either case. -/
def digitValue (c : Char) : Option Nat :=
  if '0' ≤ c ∧ c ≤ '9' then some (c.toNat - '0'.toNat)
  else if 'a' ≤ c ∧ c ≤ 'z' then some (c.toNat - 'a'.toNat + 10)
  else if 'A' ≤ c ∧ c ≤ 'Z' then some (c.toNat - 'A'.toNat + 10)
  else none

def toDigit (base : Nat) (c : Char) : Option Nat := (digitValue c).filter (· < base)

/-- A number in at most so many digits, with or without zeros in front. -/
def readNumber (base maxDigits : Nat) (zeroPrefix : Bool) (cs : List Char) : Option Nat :=
  if cs ≠ [] ∧ cs.length ≤ maxDigits ∧ (zeroPrefix ∨ cs.length = 1 ∨ cs.head? ≠ some '0') then
    (cs.mapM (toDigit base)).map fun ds => Nat.ofDigits base ds.reverse
  else none

def showNumber (base n : Nat) : List Char :=
  if n = 0 then ['0'] else ((Nat.digits base n).map Nat.digitChar).reverse

variable {base n maxDigits : Nat} {zeroPrefix : Bool} {c : Char} {cs : List Char}

theorem toDigit_digitChar (hbase : base ≤ 16) (h : n < base) :
    toDigit base n.digitChar = some n := by
  have hall : ∀ m ∈ List.range 16, digitValue (Nat.digitChar m) = some m := by decide
  rw [toDigit, hall n (List.mem_range.mpr (by omega)), Option.filter_some,
    if_pos (by simpa using h)]

/-- No character between the digits and the separators of addresses is a digit. -/
theorem toDigit_separator (base : Nat) : toDigit base '.' = none ∧ toDigit base ':' = none ∧
    toDigit base '/' = none := by
  refine ⟨?_, ?_, ?_⟩ <;> exact congrArg (Option.filter _) (by decide : digitValue _ = none)

theorem mapM_toDigit (hbase : base ≤ 16) {ds : List Nat} (h : ∀ d ∈ ds, d < base) :
    (ds.map Nat.digitChar).mapM (toDigit base) = some ds := by
  induction ds with
  | nil => rfl
  | cons d ds ih =>
    rw [List.map_cons, List.mapM_cons, toDigit_digitChar hbase (h d List.mem_cons_self),
      ih fun e he => h e (List.mem_cons_of_mem _ he)]
    rfl

theorem showNumber_ne_nil (base n : Nat) : showNumber base n ≠ [] := by
  unfold showNumber
  split
  · simp
  · rename_i hn
    rw [ne_eq, List.reverse_eq_nil_iff, List.map_eq_nil_iff]
    exact Nat.digits_ne_nil_iff_ne_zero.mpr hn

/-- **A number that is written is read back.** -/
theorem readNumber_showNumber (hone : 1 < base) (hbase : base ≤ 16) (hmax : maxDigits ≠ 0)
    (h : n < base ^ maxDigits) :
    readNumber base maxDigits zeroPrefix (showNumber base n) = some n := by
  unfold readNumber
  rw [if_pos]
  · unfold showNumber
    split
    · rename_i hn
      have hzero : toDigit base '0' = some 0 := toDigit_digitChar hbase (by omega : 0 < base)
      simp [hzero, hn]
    · rw [← List.map_reverse, mapM_toDigit hbase fun d hd =>
        Nat.digits_lt_base hone (List.mem_reverse.mp hd)]
      rw [Option.map_some, List.reverse_reverse, Nat.ofDigits_digits]
  · refine ⟨showNumber_ne_nil base n, ?_, .inr ?_⟩
    · unfold showNumber
      split
      · simp only [List.length_cons, List.length_nil]
        omega
      · rw [List.length_reverse, List.length_map]
        exact (Nat.digits_length_le_iff hone n).mpr h
    · unfold showNumber
      split
      · exact .inl rfl
      · rename_i hn
        refine .inr fun hhead => ?_
        rw [List.head?_reverse, List.getLast?_map, Option.map_eq_some_iff] at hhead
        obtain ⟨d, hd, hzero⟩ := hhead
        rw [Nat.digitChar_eq_zero] at hzero
        have hne : Nat.digits base n ≠ [] := Nat.digits_ne_nil_iff_ne_zero.mpr hn
        rw [List.getLast?_eq_getLast_of_ne_nil hne] at hd
        exact Nat.getLast_digit_ne_zero base hn ((Option.some.inj hd).trans hzero)

theorem mapM_cons_eq_some {α β : Type} {f : α → Option β} {a : α} {l : List α} {bs : List β} :
    (a :: l).mapM f = some bs ↔
      ∃ b, f a = some b ∧ ∃ rest, l.mapM f = some rest ∧ b :: rest = bs := by
  rw [List.mapM_cons]
  simp [Option.bind_eq_some_iff]

/-- What a number is read from holds digits only. -/
theorem toDigit_of_readNumber (h : readNumber base maxDigits zeroPrefix cs = some n) :
    ∀ c ∈ cs, (toDigit base c).isSome := by
  have hdigits : ∀ (l : List Char) (ds : List Nat), l.mapM (toDigit base) = some ds →
      ∀ c ∈ l, (toDigit base c).isSome := by
    intro l
    induction l with
    | nil => simp
    | cons c l ih =>
      intro ds hds e he
      obtain ⟨d, hd, es, hes, -⟩ := mapM_cons_eq_some.mp hds
      rcases List.mem_cons.mp he with rfl | he
      · rw [hd]
        rfl
      · exact ih es hes e he
  unfold readNumber at h
  split at h
  · obtain ⟨ds, hds, -⟩ := Option.map_eq_some_iff.mp h
    exact hdigits cs ds hds
  · cases h

/-- A decimal digit has one character. -/
theorem digitChar_of_toDigit {d : Nat} (h : toDigit 10 c = some d) :
    Nat.digitChar d = c ∧ d < 10 := by
  obtain ⟨hvalue, hlt⟩ := Option.filter_eq_some_iff.mp h
  have hlt : d < 10 := by simpa using hlt
  refine ⟨?_, hlt⟩
  unfold digitValue at hvalue
  split at hvalue
  · rename_i hrange
    obtain rfl := Option.some.inj hvalue
    have hchar : ∀ m ∈ List.range 10, Nat.digitChar m = Char.ofNat (m + 48) := by decide
    have hlow : 48 ≤ c.toNat := hrange.1
    rw [hchar _ (List.mem_range.mpr hlt), show '0'.toNat = 48 from rfl, Nat.sub_add_cancel hlow,
      Char.ofNat_toNat]
  · split at hvalue
    · obtain rfl := Option.some.inj hvalue
      omega
    · split at hvalue
      · obtain rfl := Option.some.inj hvalue
        omega
      · cases hvalue

/-- **A decimal number with no zero in front has one text.** -/
theorem showNumber_of_readNumber (h : readNumber 10 maxDigits false cs = some n) :
    showNumber 10 n = cs := by
  have hdigits : ∀ (l : List Char) (ds : List Nat), l.mapM (toDigit 10) = some ds →
      ds.map Nat.digitChar = l ∧ ∀ d ∈ ds, d < 10 := by
    intro l
    induction l with
    | nil =>
      intro ds hds
      obtain rfl : [] = ds := Option.some.inj hds
      exact ⟨rfl, by simp⟩
    | cons c l ih =>
      intro ds hds
      obtain ⟨d, hd, es, hes, rfl⟩ := mapM_cons_eq_some.mp hds
      obtain ⟨hchar, hlt⟩ := digitChar_of_toDigit hd
      obtain ⟨hrest, hall⟩ := ih es hes
      exact ⟨by rw [List.map_cons, hchar, hrest], by simpa using ⟨hlt, hall⟩⟩
  unfold readNumber at h
  split at h
  case isFalse => cases h
  case isTrue hcs =>
    obtain ⟨ds, hds, rfl⟩ := Option.map_eq_some_iff.mp h
    obtain ⟨rfl, hlt⟩ := hdigits cs ds hds
    obtain ⟨hne, -, hfront⟩ := hcs
    rcases List.eq_nil_or_concat ds.reverse with hnil | ⟨ms, d, hconcat⟩
    · simp_all
    · -- the last digit of the reversed list is the first one of the text
      have hds : ds = d :: ms.reverse := by
        rw [← List.reverse_reverse ds, hconcat]
        simp
      subst hds
      by_cases hd : d = 0
      · subst hd
        have hlen : ms = [] := by simpa using hfront
        subst hlen
        rfl
      · have hdigits : Nat.digits 10 (Nat.ofDigits 10 (d :: ms.reverse).reverse) =
            (d :: ms.reverse).reverse := by
          refine Nat.digits_ofDigits 10 (by omega) _ (fun e he => hlt e (List.mem_reverse.mp he)) ?_
          intro hne
          simpa using hd
        have hpos : Nat.ofDigits 10 (d :: ms.reverse).reverse ≠ 0 := by
          intro hzero
          rw [hzero] at hdigits
          simp at hdigits
        rw [showNumber, if_neg hpos, hdigits, ← List.map_reverse, List.reverse_reverse]

/-! ## IPv4 -/

structure Ipv4Addr where
  a : Fin 256
  b : Fin 256
  c : Fin 256
  d : Fin 256
  deriving DecidableEq

namespace Ipv4Addr

/-- `Ipv4Addr::new`. -/
def new (a b c d : Nat) : Ipv4Addr :=
  ⟨Fin.ofNat 256 a, Fin.ofNat 256 b, Fin.ofNat 256 c, Fin.ofNat 256 d⟩

/-- As one number, the first octet in front. -/
def toNat (ip : Ipv4Addr) : Nat :=
  ip.a.val * 2 ^ 24 + ip.b.val * 2 ^ 16 + ip.c.val * 2 ^ 8 + ip.d.val

theorem toNat_lt (ip : Ipv4Addr) : ip.toNat < 2 ^ 32 := by
  have ha := ip.a.isLt
  have hb := ip.b.isLt
  have hc := ip.c.isLt
  have hd := ip.d.isLt
  unfold toNat
  omega

/-- `127.0.0.0/8`. -/
def isLoopback (ip : Ipv4Addr) : Bool := ip.a = 127

end Ipv4Addr

/-- A number that fits a part of an address. -/
def bounded (bound : Nat) (n : Option Nat) : Option (Fin bound) :=
  n.bind fun n => if h : n < bound then some ⟨n, h⟩ else none

theorem bounded_eq_some {bound : Nat} {n : Option Nat} {i : Fin bound} :
    bounded bound n = some i ↔ n = some i.val := by
  unfold bounded
  constructor
  · intro h
    obtain ⟨m, rfl, hm⟩ := Option.bind_eq_some_iff.mp h
    split at hm
    · obtain rfl := Option.some.inj hm
      rfl
    · cases hm
  · rintro rfl
    rw [Option.bind_some, dif_pos i.isLt]

def octet (cs : List Char) : Option (Fin 256) := bounded 256 (readNumber 10 3 false cs)

def showOctet (i : Fin 256) : List Char := showNumber 10 i.val

theorem octet_showOctet (i : Fin 256) : octet (showOctet i) = some i := by
  refine bounded_eq_some.mpr (readNumber_showNumber (by omega) (by omega) (by omega) ?_)
  have := i.isLt
  omega

theorem showOctet_of_octet {i : Fin 256} (h : octet cs = some i) : showOctet i = cs :=
  showNumber_of_readNumber (bounded_eq_some.mp h)

theorem octet_separator (h : (octet cs).isSome) : '.' ∉ cs ∧ ':' ∉ cs ∧ '/' ∉ cs := by
  obtain ⟨i, hi⟩ := Option.isSome_iff_exists.mp h
  have hall := toDigit_of_readNumber (bounded_eq_some.mp hi)
  obtain ⟨hdot, hcolon, hslash⟩ := toDigit_separator 10
  refine ⟨fun hc => ?_, fun hc => ?_, fun hc => ?_⟩
  · simpa [hdot] using hall _ hc
  · simpa [hcolon] using hall _ hc
  · simpa [hslash] using hall _ hc

def readIpv4 (cs : List Char) : Option Ipv4Addr :=
  match cs.splitOn '.' with
  | [a, b, c, d] => do return { a := ← octet a, b := ← octet b, c := ← octet c, d := ← octet d }
  | _ => none

def showIpv4 (ip : Ipv4Addr) : List Char :=
  ['.'].intercalate [showOctet ip.a, showOctet ip.b, showOctet ip.c, showOctet ip.d]

theorem readIpv4_eq_some {ip : Ipv4Addr} : readIpv4 cs = some ip ↔ ∃ a b c d,
    cs.splitOn '.' = [a, b, c, d] ∧ octet a = some ip.a ∧ octet b = some ip.b ∧
      octet c = some ip.c ∧ octet d = some ip.d := by
  unfold readIpv4
  constructor
  · intro h
    split at h
    case h_2 => cases h
    case h_1 a b c d hsplit =>
      simp only [Option.bind_eq_bind, Option.bind_eq_some_iff] at h
      obtain ⟨i, hi, j, hj, k, hk, l, hl, hip⟩ := h
      obtain rfl := Option.some.inj hip
      exact ⟨a, b, c, d, hsplit, hi, hj, hk, hl⟩
  · rintro ⟨a, b, c, d, hsplit, ha, hb, hc, hd⟩
    rw [hsplit]
    simp [ha, hb, hc, hd]

theorem readIpv4_showIpv4 (ip : Ipv4Addr) : readIpv4 (showIpv4 ip) = some ip := by
  refine readIpv4_eq_some.mpr ⟨_, _, _, _, ?_, octet_showOctet ip.a, octet_showOctet ip.b,
    octet_showOctet ip.c, octet_showOctet ip.d⟩
  refine List.splitOn_intercalate '.' (fun l hl => ?_) (by simp)
  have hdot : ∀ i, '.' ∉ showOctet i := fun i =>
    (octet_separator (by rw [octet_showOctet i]; rfl)).1
  simp only [List.mem_cons, List.not_mem_nil, or_false] at hl
  rcases hl with rfl | rfl | rfl | rfl <;> exact hdot _

/-- **An IPv4 address has one text.** -/
theorem showIpv4_of_readIpv4 {ip : Ipv4Addr} (h : readIpv4 cs = some ip) : showIpv4 ip = cs := by
  obtain ⟨a, b, c, d, hsplit, ha, hb, hc, hd⟩ := readIpv4_eq_some.mp h
  rw [showIpv4, showOctet_of_octet ha, showOctet_of_octet hb, showOctet_of_octet hc,
    showOctet_of_octet hd, ← hsplit, List.intercalate_splitOn]

/-- The characters of what a list is joined from. -/
theorem mem_intercalate {sep c : Char} {ls : List (List Char)} (h : c ∈ [sep].intercalate ls) :
    c = sep ∨ ∃ l ∈ ls, c ∈ l := by
  induction ls with
  | nil => simp at h
  | cons l ls ih =>
    cases ls with
    | nil => exact .inr ⟨l, by simp, by simpa using h⟩
    | cons k ls =>
      rw [List.intercalate_cons_cons] at h
      rcases List.mem_append.mp h with h | h
      · rcases List.mem_append.mp h with h | h
        · exact .inr ⟨l, by simp, h⟩
        · exact .inl (List.mem_singleton.mp h)
      · refine (ih h).imp_right fun hmem => ?_
        obtain ⟨m, hm, hc⟩ := hmem
        exact ⟨m, List.mem_cons_of_mem _ hm, hc⟩

/-- Neither a colon nor a slash is in an IPv4 address. -/
theorem readIpv4_separator {ip : Ipv4Addr} (h : readIpv4 cs = some ip) : ':' ∉ cs ∧ '/' ∉ cs := by
  obtain ⟨a, b, c, d, hsplit, ha, hb, hc, hd⟩ := readIpv4_eq_some.mp h
  have hparts : ∀ l ∈ [a, b, c, d], ':' ∉ l ∧ '/' ∉ l := by
    intro l hl
    simp only [List.mem_cons, List.not_mem_nil, or_false] at hl
    rcases hl with rfl | rfl | rfl | rfl
    · exact (octet_separator (by rw [ha]; rfl)).2
    · exact (octet_separator (by rw [hb]; rfl)).2
    · exact (octet_separator (by rw [hc]; rfl)).2
    · exact (octet_separator (by rw [hd]; rfl)).2
  have hjoin : ['.'].intercalate (cs.splitOn '.') = cs := List.intercalate_splitOn '.'
  rw [← hjoin, hsplit]
  refine ⟨fun hmem => ?_, fun hmem => ?_⟩
  · rcases mem_intercalate hmem with heq | ⟨l, hl, hmem⟩
    · cases heq
    · exact (hparts l hl).1 hmem
  · rcases mem_intercalate hmem with heq | ⟨l, hl, hmem⟩
    · cases heq
    · exact (hparts l hl).2 hmem

/-! ## IPv6 -/

structure Ipv6Addr where
  segments : List (Fin 65536)
  length_eq : segments.length = 8
  deriving DecidableEq

/-- `::1`. -/
def Ipv6Addr.isLoopback (ip : Ipv6Addr) : Bool := ip.segments = [0, 0, 0, 0, 0, 0, 0, 1]

def group (cs : List Char) : Option (Fin 65536) := bounded 65536 (readNumber 16 4 true cs)

def showGroup (g : Fin 65536) : List Char := showNumber 16 g.val

/-- The two groups that an IPv4 address fills. -/
def Ipv4Addr.groups (ip : Ipv4Addr) : List (Fin 65536) :=
  [⟨ip.a.val * 256 + ip.b.val, by omega⟩, ⟨ip.c.val * 256 + ip.d.val, by omega⟩]

/-- The groups between colons; the last two may be an IPv4 address. -/
def readGroups (ipv4 : Bool) : List (List Char) → Option (List (Fin 65536))
  | [] => some []
  | [last] =>
    match if ipv4 then readIpv4 last else none with
    | some ip => some ip.groups
    | none => (group last).map fun g => [g]
  | piece :: pieces => do
    let g ← group piece
    let gs ← readGroups ipv4 pieces
    return g :: gs

def pieces (cs : List Char) : List (List Char) := if cs = [] then [] else cs.splitOn ':'

/-- What stands before and after the first `::`. -/
def splitZeros : List Char → Option (List Char × List Char)
  | [] => none
  | [_] => none
  | c :: d :: rest =>
    if c = ':' ∧ d = ':' then some ([], rest)
    else (splitZeros (d :: rest)).map fun p => (c :: p.1, p.2)

/-- Eight groups, or fewer around one `::` that stands for the zeros left out. -/
def readIpv6 (cs : List Char) : Option Ipv6Addr :=
  match splitZeros cs with
  | none => do
    let gs ← readGroups true (pieces cs)
    if h : gs.length = 8 then some { segments := gs, length_eq := h } else none
  | some (head, tail) => do
    let hs ← readGroups false (pieces head)
    let ts ← readGroups true (pieces tail)
    if h : hs.length + ts.length ≤ 7 then
      some {
        segments := hs ++ List.replicate (8 - hs.length - ts.length) 0 ++ ts
        length_eq := by simp; omega }
    else none

structure Span where
  start : Nat := 0
  len : Nat := 0
  deriving DecidableEq

/-- The first longest run of zeros, the run before the place `i` being `current`. -/
def longestZeros : List (Fin 65536) → Nat → Span → Span → Span
  | [], _, longest, _ => longest
  | g :: gs, i, longest, current =>
    if g = 0 then
      let current : Span :=
        { start := if current.len = 0 then i else current.start, len := current.len + 1 }
      longestZeros gs (i + 1) (if longest.len < current.len then current else longest) current
    else longestZeros gs (i + 1) longest {}

def showGroups (gs : List (Fin 65536)) : List Char := [':'].intercalate (gs.map showGroup)

/-- The IPv4 address of `::ffff:a.b.c.d`. -/
def Ipv6Addr.toIpv4Mapped (ip : Ipv6Addr) : Option Ipv4Addr :=
  match ip.segments with
  | [s, t, u, v, w, x, g, h] =>
    if [s, t, u, v, w, x] = [0, 0, 0, 0, 0, 65535] then
      some {
        a := ⟨g.val / 256, by omega⟩, b := ⟨g.val % 256, by omega⟩
        c := ⟨h.val / 256, by omega⟩, d := ⟨h.val % 256, by omega⟩ }
    else none
  | _ => none

def showIpv6 (ip : Ipv6Addr) : List Char :=
  match ip.toIpv4Mapped with
  | some ipv4 => "::ffff:".toList ++ showIpv4 ipv4
  | none =>
    let zeros := longestZeros ip.segments 0 {} {}
    if 1 < zeros.len then
      showGroups (ip.segments.take zeros.start) ++ "::".toList ++
        showGroups (ip.segments.drop (zeros.start + zeros.len))
    else showGroups ip.segments

/-! ## What is written is read back -/

theorem group_showGroup (g : Fin 65536) : group (showGroup g) = some g := by
  refine bounded_eq_some.mpr (readNumber_showNumber (by omega) (by omega) (by omega) ?_)
  have := g.isLt
  omega

theorem group_separator (h : (group cs).isSome) : '.' ∉ cs ∧ ':' ∉ cs ∧ '/' ∉ cs := by
  obtain ⟨i, hi⟩ := Option.isSome_iff_exists.mp h
  have hall := toDigit_of_readNumber (bounded_eq_some.mp hi)
  obtain ⟨hdot, hcolon, hslash⟩ := toDigit_separator 16
  refine ⟨fun hc => ?_, fun hc => ?_, fun hc => ?_⟩
  · simpa [hdot] using hall _ hc
  · simpa [hcolon] using hall _ hc
  · simpa [hslash] using hall _ hc

theorem showGroup_separator (g : Fin 65536) :
    '.' ∉ showGroup g ∧ ':' ∉ showGroup g ∧ '/' ∉ showGroup g :=
  group_separator (by rw [group_showGroup g]; rfl)

theorem showGroup_ne_nil (g : Fin 65536) : showGroup g ≠ [] := showNumber_ne_nil 16 g.val

/-- A piece without a dot is no IPv4 address. -/
theorem readIpv4_of_not_mem (h : '.' ∉ cs) : readIpv4 cs = none := by
  unfold readIpv4
  rw [List.splitOn_eq_singleton h]

theorem readGroups_showGroup (ipv4 : Bool) (gs : List (Fin 65536)) :
    readGroups ipv4 (gs.map showGroup) = some gs := by
  induction gs with
  | nil => rfl
  | cons g gs ih =>
    cases gs with
    | nil =>
      have hnone : (if ipv4 then readIpv4 (showGroup g) else none) = none := by
        rw [readIpv4_of_not_mem (showGroup_separator g).1, ite_self]
      simp [readGroups, hnone, group_showGroup]
    | cons k gs =>
      rw [List.map_cons] at ih ⊢
      rw [List.map_cons, readGroups, group_showGroup]
      · simp [ih]
      · simp

theorem showGroups_ne_nil {g : Fin 65536} {gs : List (Fin 65536)} : showGroups (g :: gs) ≠ [] := by
  unfold showGroups
  cases gs with
  | nil => simpa using showGroup_ne_nil g
  | cons k gs => simp [List.intercalate_cons_cons]

theorem pieces_showGroups (gs : List (Fin 65536)) : pieces (showGroups gs) = gs.map showGroup := by
  unfold pieces
  cases gs with
  | nil => rfl
  | cons g gs =>
    rw [if_neg showGroups_ne_nil, showGroups]
    refine List.splitOn_intercalate ':' (fun l hl => ?_) (by simp)
    obtain ⟨k, -, rfl⟩ := List.mem_map.mp hl
    exact (showGroup_separator k).2.1

theorem splitZeros_cons (hc : c ≠ ':') (l : List Char) :
    splitZeros (c :: l) = (splitZeros l).map fun p => (c :: p.1, p.2) := by
  cases l with
  | nil => rfl
  | cons d l => rw [splitZeros, if_neg fun h => hc h.1]

theorem splitZeros_append (hcs : ':' ∉ cs) (l : List Char) :
    splitZeros (cs ++ l) = (splitZeros l).map fun p => (cs ++ p.1, p.2) := by
  induction cs with
  | nil => simp
  | cons c cs ih =>
    rw [List.mem_cons, not_or] at hcs
    rw [List.cons_append, splitZeros_cons (Ne.symm hcs.1), ih hcs.2, Option.map_map]
    rfl

theorem showGroups_cons_cons (g k : Fin 65536) (gs : List (Fin 65536)) :
    showGroups (g :: k :: gs) = showGroup g ++ ':' :: showGroups (k :: gs) := by
  rw [showGroups, List.map_cons, List.map_cons, List.intercalate_cons_cons, List.append_assoc]
  rfl

theorem showGroups_eq_cons (g : Fin 65536) (gs : List (Fin 65536)) :
    ∃ c l, showGroups (g :: gs) = c :: l ∧ c ≠ ':' := by
  obtain ⟨c, l, hl⟩ := List.exists_cons_of_ne_nil (showGroup_ne_nil g)
  have hc : c ≠ ':' := by
    rintro rfl
    exact (showGroup_separator g).2.1 (by rw [hl]; exact List.mem_cons_self)
  cases gs with
  | nil => exact ⟨c, l, by rw [← hl]; simp [showGroups], hc⟩
  | cons k gs => exact ⟨c, _, by rw [showGroups_cons_cons, hl, List.cons_append], hc⟩

/-- No two colons meet between groups. -/
theorem splitZeros_colon (g : Fin 65536) (gs : List (Fin 65536)) (l : List Char) :
    splitZeros (':' :: (showGroups (g :: gs) ++ l)) =
      (splitZeros (showGroups (g :: gs) ++ l)).map fun p => (':' :: p.1, p.2) := by
  obtain ⟨c, k, hk, hc⟩ := showGroups_eq_cons g gs
  rw [hk, List.cons_append, splitZeros, if_neg fun h => hc h.2]

theorem splitZeros_showGroups (gs : List (Fin 65536)) : splitZeros (showGroups gs) = none := by
  induction gs with
  | nil => rfl
  | cons g gs ih =>
    cases gs with
    | nil =>
      have := splitZeros_append (showGroup_separator g).2.1 []
      simpa [showGroups, splitZeros] using this
    | cons k gs =>
      have hcolon := splitZeros_colon k gs []
      rw [List.append_nil, ih] at hcolon
      rw [showGroups_cons_cons, splitZeros_append (showGroup_separator g).2.1, hcolon]
      rfl

theorem splitZeros_zeros (gs : List (Fin 65536)) (l : List Char) :
    splitZeros (showGroups gs ++ "::".toList ++ l) = some (showGroups gs, l) := by
  have hzeros : splitZeros ("::".toList ++ l) = some ([], l) := rfl
  rw [List.append_assoc]
  induction gs with
  | nil => exact hzeros
  | cons g gs ih =>
    cases gs with
    | nil =>
      have hg : showGroups [g] = showGroup g := by simp [showGroups]
      rw [hg, splitZeros_append (showGroup_separator g).2.1, hzeros]
      simp
    | cons k gs =>
      rw [showGroups_cons_cons, List.append_assoc, splitZeros_append (showGroup_separator g).2.1,
        List.cons_append, splitZeros_colon, ih]
      rfl

/-- Nothing but zeros in a span of a list. -/
def ZerosAt (l : List (Fin 65536)) (s : Span) : Prop :=
  s.start + s.len ≤ l.length ∧ ∀ j, s.start ≤ j → j < s.start + s.len → l[j]? = some 0

theorem ZerosAt.append {l : List (Fin 65536)} {s : Span} (h : ZerosAt l s)
    (rest : List (Fin 65536)) : ZerosAt (l ++ rest) s := by
  obtain ⟨hle, hall⟩ := h
  refine ⟨by rw [List.length_append]; omega, fun j hj hlt => ?_⟩
  rw [List.getElem?_append_left (by omega)]
  exact hall j hj hlt

/-- The run that goes on with one zero more. -/
theorem ZerosAt.more {l : List (Fin 65536)} {s : Span} (h : ZerosAt l s)
    (hend : s.len ≠ 0 → s.start + s.len = l.length) :
    ZerosAt (l ++ [0])
      { start := if s.len = 0 then l.length else s.start, len := s.len + 1 } := by
  obtain ⟨hle, hall⟩ := h
  unfold ZerosAt
  rw [List.length_append, List.length_singleton]
  split
  · rename_i hzero
    refine ⟨by simp [hzero], fun j hj hlt => ?_⟩
    have hj : l.length ≤ j := hj
    have hlt : j < l.length + (s.len + 1) := hlt
    obtain rfl : j = l.length := by omega
    simp
  · rename_i hne
    have hend := hend hne
    refine ⟨by simp only; omega, fun j hj hlt => ?_⟩
    simp only at hj hlt
    by_cases hlast : j = l.length
    · subst hlast
      simp
    · rw [List.getElem?_append_left (by omega)]
      exact hall j hj (by omega)

/-- The longest run is one of zeros. -/
theorem zerosAt_longestZeros (gs : List (Fin 65536)) {l : List (Fin 65536)} {longest current : Span}
    (hlongest : ZerosAt l longest) (hcurrent : ZerosAt l current)
    (hend : current.len ≠ 0 → current.start + current.len = l.length) :
    ZerosAt (l ++ gs) (longestZeros gs l.length longest current) := by
  induction gs generalizing l longest current with
  | nil => simpa [longestZeros] using hlongest
  | cons g gs ih =>
    have hlen : (l ++ [g]).length = l.length + 1 := by simp
    have hassoc : l ++ g :: gs = l ++ [g] ++ gs := by simp
    rw [longestZeros, hassoc]
    split
    · rename_i hg
      subst hg
      have hmore := hcurrent.more hend
      have hlongest' : ZerosAt (l ++ [0]) (if longest.len < current.len + 1 then
          { start := if current.len = 0 then l.length else current.start, len := current.len + 1 }
          else longest) := by
        split
        · exact hmore
        · exact hlongest.append [0]
      have := ih hlongest' hmore fun _ => by
        rw [hlen]
        show (if current.len = 0 then l.length else current.start) + (current.len + 1) =
          l.length + 1
        split
        · omega
        · rename_i hne
          have := hend hne
          omega
      rwa [hlen] at this
    · have hnone : ZerosAt (l ++ [g]) {} := ⟨by simp, fun j hj hlt => absurd hlt (by simp)⟩
      have := ih (hlongest.append [g]) hnone fun h => absurd rfl h
      rwa [hlen] at this

/-- What is left out is zeros. -/
theorem ZerosAt.split {l : List (Fin 65536)} {s : Span} (h : ZerosAt l s) :
    l.take s.start ++ List.replicate s.len 0 ++ l.drop (s.start + s.len) = l := by
  obtain ⟨hle, hall⟩ := h
  have hzeros : (l.drop s.start).take s.len = List.replicate s.len 0 := by
    refine List.ext_getElem? fun j => ?_
    rw [List.getElem?_take, List.getElem?_replicate]
    split
    · rw [List.getElem?_drop]
      exact hall _ (by omega) (by omega)
    · rfl
  rw [← hzeros, ← List.drop_drop, List.append_assoc, List.take_append_drop, List.take_append_drop]

theorem toIpv4Mapped_eq_some {ip : Ipv6Addr} {ipv4 : Ipv4Addr}
    (h : ip.toIpv4Mapped = some ipv4) :
    ip.segments = [0, 0, 0, 0, 0, 65535] ++ ipv4.groups := by
  unfold Ipv6Addr.toIpv4Mapped at h
  split at h
  case h_2 => cases h
  case h_1 s t u v w x g h' hsegments =>
    split at h
    case isFalse => cases h
    case isTrue hzeros =>
      obtain rfl := Option.some.inj h
      simp only [List.cons.injEq, and_true] at hzeros
      obtain ⟨rfl, rfl, rfl, rfl, rfl, rfl⟩ := hzeros
      have hg : g.val / 256 * 256 + g.val % 256 = g.val := Nat.div_add_mod' _ _
      have hh : h'.val / 256 * 256 + h'.val % 256 = h'.val := Nat.div_add_mod' _ _
      rw [hsegments]
      simp [Ipv4Addr.groups, hg, hh]

/-- **What is written is read back.** -/
theorem readIpv6_showIpv6 (ip : Ipv6Addr) : readIpv6 (showIpv6 ip) = some ip := by
  have hlength := ip.length_eq
  unfold showIpv6
  split
  case h_1 ipv4 hmapped =>
    have hsegments := toIpv4Mapped_eq_some hmapped
    have hcolon := (readIpv4_separator (readIpv4_showIpv4 ipv4)).1
    have hsplit : splitZeros ("::ffff:".toList ++ showIpv4 ipv4) =
        some ([], "ffff".toList ++ ':' :: showIpv4 ipv4) := rfl
    have hpieces : pieces ("ffff".toList ++ ':' :: showIpv4 ipv4) =
        ["ffff".toList, showIpv4 ipv4] := by
      rw [pieces, if_neg (by simp), List.splitOn_append_cons_self_of_not_mem (by decide),
        List.splitOn_eq_singleton hcolon]
    have hgroups : readGroups true ["ffff".toList, showIpv4 ipv4] =
        some (65535 :: ipv4.groups) := by
      have hffff : group "ffff".toList = some 65535 := by decide +kernel
      rw [readGroups, hffff]
      · simp [readGroups, readIpv4_showIpv4]
      · simp
    have hnone : readGroups false (pieces []) = some [] := rfl
    unfold readIpv6
    rw [hsplit]
    simp only [hnone, hpieces, hgroups, Option.bind_eq_bind, Option.bind_some]
    rw [dif_pos (by simp [Ipv4Addr.groups])]
    congr 1
    cases ip
    simp only [Ipv6Addr.mk.injEq] at hsegments ⊢
    rw [hsegments]
    rfl
  case h_2 =>
    dsimp only
    split
    case isFalse =>
      unfold readIpv6
      rw [splitZeros_showGroups, pieces_showGroups]
      simp [readGroups_showGroup, hlength]
    case isTrue hlen =>
      have hzeros : ZerosAt ip.segments (longestZeros ip.segments 0 {} {}) :=
        zerosAt_longestZeros (l := []) ip.segments ⟨by simp, by simp⟩ ⟨by simp, by simp⟩ (by simp)
      have hsegments := hzeros.split
      have hle := hzeros.1
      generalize longestZeros ip.segments 0 {} {} = zeros at *
      unfold readIpv6
      rw [splitZeros_zeros]
      simp only [pieces_showGroups, readGroups_showGroup, Option.bind_eq_bind, Option.bind_some,
        List.length_take, List.length_drop, hlength]
      rw [dif_pos (by omega)]
      congr 1
      cases ip with
      | mk segments hlength =>
        simp only [Ipv6Addr.mk.injEq] at *
        have hcount : 8 - min zeros.start 8 - (8 - (zeros.start + zeros.len)) = zeros.len := by
          omega
        rw [hcount]
        exact hsegments

/-! ## Either -/

inductive IpAddr where
  | v4 (ip : Ipv4Addr)
  | v6 (ip : Ipv6Addr)
  deriving DecidableEq

namespace IpAddr

def isLoopback : IpAddr → Bool
  | v4 ip => ip.isLoopback
  | v6 ip => ip.isLoopback

def display : IpAddr → String
  | v4 ip => String.ofList (showIpv4 ip)
  | v6 ip => String.ofList (showIpv6 ip)

end IpAddr

def parseIpv4 (s : String) : Option Ipv4Addr := readIpv4 s.toList

def parseIp (s : String) : Option IpAddr :=
  ((parseIpv4 s).map .v4).or ((readIpv6 s.toList).map .v6)

theorem mem_of_splitZeros {head tail : List Char} (h : splitZeros cs = some (head, tail)) :
    cs = head ++ "::".toList ++ tail := by
  induction cs generalizing head with
  | nil => cases h
  | cons c cs ih =>
    cases cs with
    | nil => cases h
    | cons d cs =>
      rw [splitZeros] at h
      split at h
      · rename_i hcolons
        obtain ⟨rfl, rfl⟩ := Prod.mk.inj (Option.some.inj h)
        rw [hcolons.1, hcolons.2]
        rfl
      · obtain ⟨⟨head, tail⟩, hp, heq⟩ := Option.map_eq_some_iff.mp h
        obtain ⟨rfl, rfl⟩ := Prod.mk.inj heq
        rw [ih hp]
        rfl

/-- No group has a slash. -/
theorem readGroups_separator {ipv4 : Bool} {ps : List (List Char)} {gs : List (Fin 65536)}
    (h : readGroups ipv4 ps = some gs) : ∀ p ∈ ps, '/' ∉ p := by
  induction ps generalizing gs with
  | nil => simp
  | cons p ps ih =>
    cases ps with
    | nil =>
      intro q hq
      obtain rfl := List.mem_singleton.mp hq
      rw [readGroups] at h
      split at h
      · rename_i ip hip
        split at hip
        · exact (readIpv4_separator hip).2
        · cases hip
      · obtain ⟨g, hg, -⟩ := Option.map_eq_some_iff.mp h
        exact (group_separator (by rw [hg]; rfl)).2.2
    | cons k ps =>
      rw [readGroups] at h
      · simp only [Option.bind_eq_bind, Option.bind_eq_some_iff] at h
        obtain ⟨g, hg, gs, hgs, -⟩ := h
        intro q hq
        rcases List.mem_cons.mp hq with rfl | hq
        · exact (group_separator (by rw [hg]; rfl)).2.2
        · exact ih hgs q hq
      · simp

theorem not_mem_of_pieces (h : ∀ p ∈ pieces cs, '/' ∉ p) : '/' ∉ cs := by
  unfold pieces at h
  split at h
  · rename_i hnil
    simp [hnil]
  · intro hmem
    have hjoin : [':'].intercalate (cs.splitOn ':') = cs := List.intercalate_splitOn ':'
    rw [← hjoin] at hmem
    rcases mem_intercalate hmem with heq | ⟨p, hp, hmem⟩
    · cases heq
    · exact h p hp hmem

theorem readIpv6_separator {ip : Ipv6Addr} (h : readIpv6 cs = some ip) : '/' ∉ cs := by
  unfold readIpv6 at h
  split at h
  · simp only [Option.bind_eq_bind, Option.bind_eq_some_iff] at h
    obtain ⟨gs, hgs, -⟩ := h
    exact not_mem_of_pieces (readGroups_separator hgs)
  · rename_i head tail hsplit
    simp only [Option.bind_eq_bind, Option.bind_eq_some_iff] at h
    obtain ⟨hs, hhs, ts, hts, -⟩ := h
    have hhead := not_mem_of_pieces (readGroups_separator hhs)
    have htail := not_mem_of_pieces (readGroups_separator hts)
    rw [mem_of_splitZeros hsplit]
    simp [hhead, htail]

/-- **The written form of an address is read as that address.** -/
theorem parseIp_display (ip : IpAddr) : parseIp ip.display = some ip := by
  cases ip with
  | v4 ip => simp [parseIp, parseIpv4, IpAddr.display, readIpv4_showIpv4]
  | v6 ip =>
    have hnone : readIpv4 (showIpv6 ip) = none := by
      cases hip : readIpv4 (showIpv6 ip) with
      | none => rfl
      | some ipv4 =>
        -- the text of an IPv4 address has no colon, and without one eight groups cannot be read
        have hcolon := (readIpv4_separator hip).1
        have hread := readIpv6_showIpv6 ip
        have hsplit : splitZeros (showIpv6 ip) = none := by
          cases hs : splitZeros (showIpv6 ip) with
          | none => rfl
          | some p =>
            have := mem_of_splitZeros hs
            rw [this] at hcolon
            simp at hcolon
        unfold readIpv6 at hread
        rw [hsplit] at hread
        simp only [pieces, List.splitOn_eq_singleton hcolon] at hread
        split at hread
        · simp [readGroups] at hread
        · simp [readGroups, hip, Ipv4Addr.groups] at hread
    simp [parseIp, parseIpv4, IpAddr.display, hnone, readIpv6_showIpv6]

theorem parseIp_separator {s : String} {ip : IpAddr} (h : parseIp s = some ip) :
    '/' ∉ s.toList := by
  rcases Option.or_eq_some_iff.mp h with h | ⟨-, h⟩
  · obtain ⟨ipv4, hip, -⟩ := Option.map_eq_some_iff.mp h
    exact (readIpv4_separator hip).2
  · obtain ⟨ipv6, hip, -⟩ := Option.map_eq_some_iff.mp h
    exact readIpv6_separator hip

/-- **An IPv4 address has one text.** -/
theorem display_of_parseIp {s : String} {ip : Ipv4Addr} (h : parseIp s = some (.v4 ip)) :
    (IpAddr.v4 ip).display = s := by
  rcases Option.or_eq_some_iff.mp h with h | ⟨-, h⟩
  · obtain ⟨ipv4, hip, heq⟩ := Option.map_eq_some_iff.mp h
    obtain rfl := IpAddr.v4.inj heq
    rw [IpAddr.display, showIpv4_of_readIpv4 hip, String.ofList_toList]
  · obtain ⟨ipv6, -, heq⟩ := Option.map_eq_some_iff.mp h
    cases heq

end Net
