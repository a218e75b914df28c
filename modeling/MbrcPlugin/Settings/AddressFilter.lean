import MbrcPlugin.Lib.Addresses
import MbrcPlugin.Protocol.Json
import MbrcPlugin.Settings.Config

/-!
# Which clients may connect

`isClientAllowed` as the server asks it of every peer: loopback always, then the mode.  An entry of
the list is compared with the peer's address as text, or as a block by arithmetic; `Admits` says
what the entries mean, and `filter_exact_iff` for which configurations the two agree.
-/

namespace Mbrc.Settings

open Net Text

/-- `str::parse` for an unsigned type with the values below `bound`. -/
def parseUnsigned (bound : Nat) (s : String) : Option (Fin bound) :=
  bounded bound (parseDigits (match s.toList with
    | '+' :: digits => digits
    | digits => digits))

/-! ## The base of a range -/

theorem isNat_digits {cs : List Char} (hd : ∀ c ∈ cs, c.isDigit = true) (hne : cs ≠ []) :
    (String.ofList cs).toSlice.isNat = true := by
  unfold String.Slice.isNat
  have hlist : (String.ofList cs).toSlice.copy.toList = cs := by simp
  simp only [String.Slice.forIn_eq_forIn_toList, hlist]
  have hloop : ∀ (l : List Char), (∀ c ∈ l, c.isDigit = true) → ∀ b : Bool,
      (forIn (m := Id) l ((none : Option Bool), b) fun c s =>
        if c = '_' then
          if (!s.2) = true then pure (ForInStep.done (some false, s.2))
          else pure (ForInStep.yield (none, false))
        else if c.isDigit = true then pure (ForInStep.yield (none, true))
        else pure (ForInStep.done (some false, s.2))) = (none, b || !l.isEmpty) := by
    intro l
    induction l with
    | nil =>
      intro _ b
      rw [List.isEmpty_nil, Bool.not_true, Bool.or_false]
      rfl
    | cons c l ih =>
      intro hl b
      have hc := hl c List.mem_cons_self
      have hne : c ≠ '_' := by
        rintro rfl
        exact absurd hc (by decide)
      rw [List.forIn_cons]
      simp only [hne, if_false, hc, if_true]
      show (forIn (m := Id) l ((none : Option Bool), true) _) = _
      rw [ih (fun d hd => hl d (List.mem_cons_of_mem _ hd)) true]
      simp
  rw [hloop cs hd]
  cases cs with
  | nil => exact absurd rfl hne
  | cons c cs => rfl

theorem toNat?_digits {cs : List Char} (hd : ∀ c ∈ cs, c.isDigit = true) (hne : cs ≠ []) :
    (String.ofList cs).toNat? = some (cs.foldl (fun n c => n * 10 + (c.toNat - '0'.toNat)) 0) := by
  rw [String.toNat?, String.Slice.toNat?, if_pos (isNat_digits hd hne),
    String.Slice.foldl_eq_foldl_toList]
  have hlist : (String.ofList cs).toSlice.copy.toList = cs := by simp
  rw [hlist]
  congr 1
  clear hlist hne
  generalize 0 = n
  induction cs generalizing n with
  | nil => rfl
  | cons c cs ih =>
    have hne : c ≠ '_' := by
      rintro rfl
      exact absurd (hd _ List.mem_cons_self) (by decide)
    rw [List.foldl_cons, List.foldl_cons, if_neg hne, ih fun d h => hd d (List.mem_cons_of_mem _ h)]

theorem toDigit_of_isDigit {c : Char} (h : c.isDigit = true) :
    toDigit 10 c = some (c.toNat - '0'.toNat) := by
  have hrange : '0' ≤ c ∧ c ≤ '9' := by
    have h : 48 ≤ c.val ∧ c.val ≤ 57 := by simpa [Char.isDigit] using h
    exact h
  have hlow : 48 ≤ c.toNat := hrange.1
  have hhigh : c.toNat ≤ 57 := hrange.2
  rw [toDigit, digitValue, if_pos hrange, Option.filter_some, if_pos]
  have hzero : '0'.toNat = 48 := rfl
  rw [decide_eq_true_eq, hzero]
  omega

theorem isDigit_of_toDigit {c : Char} (h : (toDigit 10 c).isSome) : c.isDigit = true := by
  obtain ⟨d, hd⟩ := Option.isSome_iff_exists.mp h
  obtain ⟨rfl, hlt⟩ := digitChar_of_toDigit hd
  rw [Nat.isDigit_digitChar]
  exact decide_eq_true hlt

theorem mapM_of_isDigit {cs : List Char} (hd : ∀ c ∈ cs, c.isDigit = true) :
    cs.mapM (toDigit 10) = some (cs.map fun c => c.toNat - '0'.toNat) := by
  induction cs with
  | nil => rfl
  | cons c cs ih =>
    exact mapM_cons_eq_some.mpr ⟨_, toDigit_of_isDigit (hd c List.mem_cons_self), _,
      ih fun d h => hd d (List.mem_cons_of_mem _ h), rfl⟩

theorem ofDigits_reverse (base : Nat) (ds : List Nat) :
    Nat.ofDigits base ds.reverse = ds.foldl (fun n d => n * base + d) 0 := by
  rw [Nat.ofDigits_eq_foldr, List.foldr_reverse]
  congr 1
  funext n d
  simp [Nat.mul_comm, Nat.add_comm]

theorem isOctet_eq (cs : List Char) : isOctet cs = (octet cs).isSome := by
  by_cases hd : ∀ c ∈ cs, c.isDigit = true
  · have hvalue : (cs.mapM (toDigit 10)).map (fun ds => Nat.ofDigits 10 ds.reverse) =
        some (cs.foldl (fun n c => n * 10 + (c.toNat - '0'.toNat)) 0) := by
      rw [mapM_of_isDigit hd, Option.map_some, ofDigits_reverse, List.foldl_map]
    by_cases hne : cs = []
    · subst hne
      rfl
    · have hall : cs.all Char.isDigit = true := List.all_eq_true.mpr hd
      generalize hn : cs.foldl (fun n c => n * 10 + (c.toNat - '0'.toNat)) 0 = n at hvalue
      rw [isOctet, toNat?_digits hd hne, hn, octet, readNumber, hvalue]
      by_cases hshape : cs.length ≤ 3 ∧ (cs.length = 1 ∨ cs.head? ≠ some '0')
      · rw [if_pos ⟨hne, hshape.1, .inr hshape.2⟩]
        by_cases hlt : n < 256
        · have hle : n ≤ 255 := by omega
          simp [bounded, hlt, hle, hne, hall, hshape]
        · have hle : ¬ n ≤ 255 := by omega
          simp [bounded, hlt, hle]
      · rw [if_neg fun h => hshape ⟨h.2.1, h.2.2.resolve_left (by simp)⟩]
        have hnone : (bounded 256 none).isSome = false := rfl
        rw [hnone, ← Bool.not_eq_true]
        simp only [Bool.and_eq_true, Bool.or_eq_true, decide_eq_true_eq]
        exact fun h => hshape ⟨h.1.2, h.1.1.2⟩
  · have hnone : octet cs = none := by
      cases ho : octet cs with
      | none => rfl
      | some i =>
        refine absurd (fun c hc => ?_) hd
        exact isDigit_of_toDigit (toDigit_of_readNumber (bounded_eq_some.mp ho) c hc)
    have hall : cs.all Char.isDigit = false := by
      rw [← Bool.not_eq_true, List.all_eq_true]
      exact hd
    simp [isOctet, hnone, hall]

/-- **The check of the range's base** is the reader of IPv4 addresses. -/
theorem isIpv4_eq (s : String) : isIpv4 s = (parseIpv4 s).isSome := by
  unfold isIpv4 parseIpv4 readIpv4
  simp only [show isOctet = fun cs => (octet cs).isSome from funext isOctet_eq]
  rcases s.toList.splitOn '.' with - | ⟨a, - | ⟨b, - | ⟨c, - | ⟨d, - | ⟨e, l⟩⟩⟩⟩⟩
  · rfl
  · rfl
  · rfl
  · rfl
  · cases ha : octet a <;> cases hb : octet b <;> cases hc : octet c <;> cases hd : octet d <;>
      simp [ha, hb, hc, hd]
  · simp

/-- **A range that is accepted has its base.** -/
theorem base_of_validate {c : Config} (h : c.validate = true) (hmode : c.filterMode = .range) :
    ∃ base, parseIpv4 c.baseIp = some base := by
  simp only [Config.validate, Bool.and_eq_true, Bool.or_eq_true, decide_eq_true_eq] at h
  have hbase := h.1.2.resolve_left fun hne => hne hmode
  rw [isIpv4_eq] at hbase
  exact Option.isSome_iff_exists.mp hbase

/-! ## The filter -/

/-- `split_once` at the first slash. -/
def splitSlash (entry : String) : Option (String × String) :=
  (splitOnce '/' entry.toList).map fun p => (String.ofList p.1, String.ofList p.2)

/-- `u32::from`. -/
def toBits (ip : Ipv4Addr) : BitVec 32 := BitVec.ofNat 32 ip.toNat

/-- `u32::MAX << n`, which overflows from 32 on. -/
def maxShl (n : Nat) : Option (BitVec 32) :=
  if n < 32 then some (BitVec.allOnes 32 <<< n) else none

/-- `a - b` of unsigned numbers, which overflows below zero. -/
def checkedSub (a b : Nat) : Option Nat := if b ≤ a then some (a - b) else none

/-- Whether the block holds the peer; nothing where the arithmetic overflows. -/
def ipInCidr (ip : IpAddr) (network length : String) : Option Bool :=
  match ip, parseIpv4 network, parseUnsigned (2 ^ 32) length with
  | .v4 ip, some net, some n =>
    if 32 < n.val then some false
    else do
      let mask ← if n.val = 0 then some 0 else (checkedSub 32 n.val).bind maxShl
      return toBits ip &&& mask = toBits net &&& mask
  | _, _, _ => some false

def ipMatchesEntry (ip : IpAddr) (entry : String) : Option Bool :=
  match splitSlash entry with
  | some (network, length) => ipInCidr ip (trim network) (trim length)
  | none => some (trim entry = ip.display)

/-- The first entry that matches decides. -/
def anyMatches (ip : IpAddr) : List String → Option Bool
  | [] => some false
  | entry :: entries => do
    if ← ipMatchesEntry ip entry then return true else anyMatches ip entries

namespace Config

def ipInRange (c : Config) (ip : IpAddr) : Bool :=
  match ip, parseIpv4 c.baseIp with
  | .v4 ip, some base =>
    if [ip.a, ip.b, ip.c] ≠ [base.a, base.b, base.c] then false
    else base.d ≤ ip.d && ip.d.val ≤ c.lastOctetMax.val
  | _, _ => false

def isClientAllowed (c : Config) (ip : IpAddr) : Option Bool :=
  if ip.isLoopback then some true
  else
    match c.filterMode with
    | .all => some true
    | .specific => anyMatches ip c.allowedAddresses
    | .range => some (c.ipInRange ip)

end Config

/-! ## What the entries mean -/

/-- The entry is the block `net/n`, blanks around either part ignored. -/
def IsBlock (entry : String) (net : Ipv4Addr) (n : Nat) : Prop :=
  ∃ network length, entry = network ++ "/" ++ length ∧ parseIpv4 (trim network) = some net ∧
    (parseUnsigned (2 ^ 32) (trim length)).map Fin.val = some n ∧ n ≤ 32

/-- The address lies in the block: the first `n` bits are the network's. -/
def InBlock (net : Ipv4Addr) (n : Nat) (ip : Ipv4Addr) : Prop :=
  ip.toNat / 2 ^ (32 - n) = net.toNat / 2 ^ (32 - n)

/-- An entry names an address, in any of its forms, or the addresses of a block. -/
inductive Names (entry : String) : IpAddr → Prop
  | address {ip : IpAddr} (h : parseIp (trim entry) = some ip) : Names entry ip
  | block {net : Ipv4Addr} {n : Nat} {ip : Ipv4Addr} (h : IsBlock entry net n)
      (hip : InBlock net n ip) : Names entry (.v4 ip)

/-- The address is in the range. -/
def InRange (c : Config) (ip : IpAddr) : Prop :=
  ∃ base a, parseIpv4 c.baseIp = some base ∧ ip = .v4 a ∧ a.a = base.a ∧ a.b = base.b ∧
    a.c = base.c ∧ base.d ≤ a.d ∧ a.d.val ≤ c.lastOctetMax.val

/-- What the configuration admits. -/
def Admits (c : Config) (ip : IpAddr) : Prop :=
  ip.isLoopback = true ∨
    match c.filterMode with
    | .all => True
    | .specific => ∃ entry ∈ c.allowedAddresses, Names entry ip
    | .range => InRange c ip

/-- The filter does not overflow and admits what the configuration does. -/
def Exact (c : Config) : Prop :=
  ∀ ip, ∃ allowed, c.isClientAllowed ip = some allowed ∧ (allowed = true ↔ Admits c ip)

/-- Where an entry is an IPv6 address, some entry is that address as it is displayed. -/
def Canonical (c : Config) : Prop :=
  c.filterMode = .specific → ∀ entry ∈ c.allowedAddresses, ∀ ip,
    parseIp (trim entry) = some (.v6 ip) →
      ip.isLoopback = true ∨ ∃ other ∈ c.allowedAddresses, trim other = (IpAddr.v6 ip).display

/-! ## Entries -/

theorem splitSlash_eq_some {entry network length : String}
    (h : splitSlash entry = some (network, length)) :
    entry = network ++ "/" ++ length ∧ '/' ∉ network.toList := by
  obtain ⟨⟨a, b⟩, hsplit, heq⟩ := Option.map_eq_some_iff.mp h
  obtain ⟨rfl, rfl⟩ := Prod.mk.inj heq
  obtain ⟨hentry, hmem⟩ := splitOnce_eq_some.mp hsplit
  refine ⟨?_, by rwa [String.toList_ofList]⟩
  rw [← String.toList_inj, hentry]
  simp

theorem splitSlash_append {network length : String} (h : '/' ∉ network.toList) :
    splitSlash (network ++ "/" ++ length) = some (network, length) := by
  have hlist : (network ++ "/" ++ length).toList = network.toList ++ '/' :: length.toList := by
    simp
  rw [splitSlash, hlist, splitOnce_append h]
  simp

theorem splitSlash_eq_none {entry : String} (h : splitSlash entry = none) :
    '/' ∉ entry.toList :=
  splitOnce_eq_none.mp (Option.map_eq_none_iff.mp h)

theorem slash_mem_trim {s : String} (h : '/' ∈ s.toList) : '/' ∈ (trim s).toList := by
  rw [trim_eq, String.toList_ofList]
  exact mem_trimChars (by decide) h

/-- Two numbers under the mask are the same when what is above the mask is. -/
theorem and_shiftLeft_eq {x y : BitVec 32} {k : Nat} :
    x &&& (BitVec.allOnes 32 <<< k) = y &&& (BitVec.allOnes 32 <<< k) ↔
      x.toNat / 2 ^ k = y.toNat / 2 ^ k := by
  have hshift : x.toNat / 2 ^ k = y.toNat / 2 ^ k ↔ x >>> k = y >>> k := by
    rw [← BitVec.toNat_inj, BitVec.toNat_ushiftRight, BitVec.toNat_ushiftRight,
      Nat.shiftRight_eq_div_pow, Nat.shiftRight_eq_div_pow]
  rw [hshift]
  constructor
  · intro h
    refine BitVec.eq_of_getLsbD_eq fun i hi => ?_
    rw [BitVec.getLsbD_ushiftRight, BitVec.getLsbD_ushiftRight]
    by_cases hlt : k + i < 32
    · have hbit := congrArg (BitVec.getLsbD · (k + i)) h
      have hle : ¬ k + i < k := by omega
      simp only [BitVec.getLsbD_and, BitVec.getLsbD_shiftLeft, BitVec.getLsbD_allOnes] at hbit
      simpa [hlt, hle, hi] using hbit
    · rw [BitVec.getLsbD_of_ge x _ (by omega), BitVec.getLsbD_of_ge y _ (by omega)]
  · intro h
    refine BitVec.eq_of_getLsbD_eq fun i hi => ?_
    by_cases hk : k ≤ i
    · have hbit := congrArg (BitVec.getLsbD · (i - k)) h
      simp only [BitVec.getLsbD_ushiftRight, show k + (i - k) = i by omega] at hbit
      rw [BitVec.getLsbD_and, BitVec.getLsbD_and, hbit]
    · simp [show i < k by omega]

/-- What the entry matches: the address written as it is displayed, or a block that holds it. -/
def Matches (ip : IpAddr) (entry : String) : Prop :=
  trim entry = ip.display ∨
    ∃ a net n, ip = .v4 a ∧ IsBlock entry net n ∧ InBlock net n a

theorem ipInCidr_eq (ip : IpAddr) (network length : String) :
    ∃ matched, ipInCidr ip network length = some matched ∧ (matched = true ↔
      ∃ a net n, ip = .v4 a ∧ parseIpv4 network = some net ∧
        (parseUnsigned (2 ^ 32) length).map Fin.val = some n ∧ n ≤ 32 ∧ InBlock net n a) := by
  unfold ipInCidr
  split
  case h_1 a net n hnet hlength =>
    have hiff : ∀ b : Bool, (b = true ↔ n.val ≤ 32 ∧ InBlock net n.val a) → (b = true ↔
        ∃ a' net' n', IpAddr.v4 a = .v4 a' ∧ parseIpv4 network = some net' ∧
          (parseUnsigned (2 ^ 32) length).map Fin.val = some n' ∧ n' ≤ 32 ∧
            InBlock net' n' a') := by
      intro b hb
      rw [hb]
      constructor
      · intro h
        exact ⟨a, net, n.val, rfl, hnet, by rw [hlength]; rfl, h.1, h.2⟩
      · rintro ⟨a', net', n', ha, hnet', hn', hle, hin⟩
        obtain rfl := IpAddr.v4.inj ha
        obtain rfl := Option.some.inj (hnet.symm.trans hnet')
        rw [hlength] at hn'
        obtain rfl := Option.some.inj hn'
        exact ⟨hle, hin⟩
    split
    case isTrue hlong =>
      refine ⟨false, rfl, hiff false ?_⟩
      have hlong : 32 < n.val := hlong
      simp only [Bool.false_eq_true, false_iff, not_and]
      omega
    case isFalse hshort =>
      have hshort : n.val ≤ 32 := by omega
      by_cases hzero : n.val = 0
      · refine ⟨true, by simp [hzero], hiff true ?_⟩
        have ha := a.toNat_lt
        have hnet := net.toNat_lt
        rw [InBlock, hzero, Nat.sub_zero, Nat.div_eq_of_lt ha, Nat.div_eq_of_lt hnet]
        simp
      · have hmask : (checkedSub 32 n.val).bind maxShl =
            some (BitVec.allOnes 32 <<< (32 - n.val)) := by
          rw [checkedSub, if_pos hshort, Option.bind_some, maxShl, if_pos (by omega)]
        refine ⟨decide (toBits a &&& (BitVec.allOnes 32 <<< (32 - n.val)) =
          toBits net &&& (BitVec.allOnes 32 <<< (32 - n.val))), ?_, hiff _ ?_⟩
        · rw [if_neg hzero, hmask]
          rfl
        · have htoBits : ∀ a : Ipv4Addr, (toBits a).toNat = a.toNat := fun a => by
            rw [toBits, BitVec.toNat_ofNat, Nat.mod_eq_of_lt a.toNat_lt]
          rw [decide_eq_true_eq, and_shiftLeft_eq, htoBits, htoBits, InBlock]
          exact (and_iff_right hshort).symm
  case h_2 hnone =>
    refine ⟨false, rfl, ?_⟩
    simp only [Bool.false_eq_true, false_iff]
    rintro ⟨a, net, n, rfl, hnet, hn, -⟩
    obtain ⟨m, hm, -⟩ := Option.map_eq_some_iff.mp hn
    exact hnone a net m rfl hnet hm

/-- **One entry is matched without an overflow.** -/
theorem ipMatchesEntry_eq (ip : IpAddr) (entry : String) :
    ∃ matched, ipMatchesEntry ip entry = some matched ∧ (matched = true ↔ Matches ip entry) := by
  unfold ipMatchesEntry
  cases hsplit : splitSlash entry with
  | none =>
    have hslash := splitSlash_eq_none hsplit
    refine ⟨decide (trim entry = ip.display), rfl, ?_⟩
    rw [decide_eq_true_eq, Matches]
    refine ⟨.inl, fun h => h.resolve_right ?_⟩
    rintro ⟨a, net, n, -, ⟨network, length, rfl, -⟩, -⟩
    exact hslash (by simp)
  | some parts =>
    obtain ⟨network, length⟩ := parts
    obtain ⟨rfl, hslash⟩ := splitSlash_eq_some hsplit
    obtain ⟨matched, hmatched, hiff⟩ := ipInCidr_eq ip (trim network) (trim length)
    refine ⟨matched, hmatched, hiff.trans ?_⟩
    constructor
    · rintro ⟨a, net, n, rfl, hnet, hn, hle, hin⟩
      exact .inr ⟨a, net, n, rfl, ⟨network, length, rfl, hnet, hn, hle⟩, hin⟩
    · intro h
      rcases h with h | ⟨a, net, n, rfl, ⟨network', length', heq, hnet, hn, hle⟩, hin⟩
      · -- an address is displayed without a slash
        have hmem : '/' ∈ (trim (network ++ "/" ++ length)).toList := slash_mem_trim (by simp)
        rw [h] at hmem
        exact absurd hmem (parseIp_separator (parseIp_display ip))
      · have hip : parseIp (trim network') = some (.v4 net) := by simp [parseIp, hnet]
        have hslash' : '/' ∉ network'.toList := fun hmem =>
          parseIp_separator hip (slash_mem_trim hmem)
        have hparts : splitSlash (network ++ "/" ++ length) = some (network, length) :=
          splitSlash_append hslash
        rw [heq, splitSlash_append hslash'] at hparts
        obtain ⟨rfl, rfl⟩ := Prod.mk.inj (Option.some.inj hparts)
        exact ⟨a, net, n, rfl, hnet, hn, hle, hin⟩

theorem anyMatches_eq (ip : IpAddr) (entries : List String) :
    ∃ matched, anyMatches ip entries = some matched ∧
      (matched = true ↔ ∃ entry ∈ entries, Matches ip entry) := by
  induction entries with
  | nil => exact ⟨false, rfl, by simp⟩
  | cons entry entries ih =>
    obtain ⟨first, hfirst, hfirstIff⟩ := ipMatchesEntry_eq ip entry
    obtain ⟨rest, hrest, hrestIff⟩ := ih
    refine ⟨first || rest, ?_, ?_⟩
    · rw [anyMatches, hfirst]
      cases first
      · exact hrest
      · rfl
    · rw [Bool.or_eq_true, hfirstIff, hrestIff, List.exists_mem_cons_iff]

/-- An IPv4 address is matched by every form of it, having only one. -/
theorem matches_v4_iff (a : Ipv4Addr) (entry : String) :
    Matches (.v4 a) entry ↔ Names entry (.v4 a) := by
  constructor
  · rintro (h | ⟨a', net, n, heq, hblock, hin⟩)
    · exact .address (by rw [h, parseIp_display])
    · obtain rfl := IpAddr.v4.inj heq
      exact .block hblock hin
  · intro h
    cases h with
    | address h => exact .inl (display_of_parseIp h).symm
    | block hblock hin => exact .inr ⟨a, _, _, rfl, hblock, hin⟩

/-- An IPv6 address is matched by the form it is displayed in. -/
theorem matches_v6_iff (a : Ipv6Addr) (entry : String) :
    Matches (.v6 a) entry ↔ trim entry = (IpAddr.v6 a).display := by
  refine ⟨fun h => h.resolve_right ?_, .inl⟩
  rintro ⟨_, _, _, heq, -⟩
  cases heq

theorem ipInRange_iff (c : Config) (ip : IpAddr) : c.ipInRange ip = true ↔ InRange c ip := by
  unfold Config.ipInRange InRange
  split
  case h_1 a base hbase =>
    constructor
    · intro h
      split at h
      case isTrue => cases h
      case isFalse hoctets =>
        simp only [List.cons.injEq, and_true, ne_eq, not_not] at hoctets
        simp only [Bool.and_eq_true, decide_eq_true_eq] at h
        exact ⟨base, a, hbase, rfl, hoctets.1, hoctets.2.1, hoctets.2.2, h.1, h.2⟩
    · rintro ⟨base', a', hbase', heq, ha, hb, hc, hlow, hhigh⟩
      obtain rfl := IpAddr.v4.inj heq
      obtain rfl := Option.some.inj (hbase.symm.trans hbase')
      simp [ha, hb, hc, hlow, hhigh]
  case h_2 hnone =>
    simp only [Bool.false_eq_true, false_iff]
    rintro ⟨base, a, hbase, rfl, -⟩
    exact hnone a base rfl hbase

/-! ## The filter and the configuration -/

theorem isClientAllowed_specific {c : Config} (hmode : c.filterMode = .specific) {ip : IpAddr}
    (hloop : ip.isLoopback = false) :
    ∃ allowed, c.isClientAllowed ip = some allowed ∧
      (allowed = true ↔ ∃ entry ∈ c.allowedAddresses, Matches ip entry) := by
  obtain ⟨matched, hmatched, hiff⟩ := anyMatches_eq ip c.allowedAddresses
  refine ⟨matched, ?_, hiff⟩
  rw [Config.isClientAllowed, hloop, hmode]
  exact hmatched

/-- **When the filter admits exactly what the configuration does.** -/
theorem filter_exact_iff (c : Config) : Exact c ↔ Canonical c := by
  constructor
  · intro hexact hmode entry hentry a ha
    cases hloop : a.isLoopback with
    | true => exact .inl rfl
    | false =>
      obtain ⟨allowed, hallowed, hiff⟩ := hexact (.v6 a)
      have hremote : (IpAddr.v6 a).isLoopback = false := hloop
      obtain ⟨matched, hmatched, hmatches⟩ := isClientAllowed_specific hmode hremote
      obtain rfl := Option.some.inj (hallowed.symm.trans hmatched)
      have hadmits : Admits c (.v6 a) := by
        refine .inr ?_
        rw [hmode]
        exact ⟨entry, hentry, .address ha⟩
      obtain ⟨other, hother, hother'⟩ := hmatches.mp (hiff.mpr hadmits)
      exact .inr ⟨other, hother, (matches_v6_iff a other).mp hother'⟩
  · intro hcanonical ip
    cases hloop : ip.isLoopback with
    | true =>
      refine ⟨true, ?_, iff_of_true rfl (.inl hloop)⟩
      rw [Config.isClientAllowed, hloop]
      rfl
    | false =>
      have hadmits : Admits c ip ↔ match c.filterMode with
          | .all => True
          | .specific => ∃ entry ∈ c.allowedAddresses, Names entry ip
          | .range => InRange c ip := by
        rw [Admits, hloop]
        simp
      cases hmode : c.filterMode with
      | all =>
        refine ⟨true, ?_, iff_of_true rfl ?_⟩
        · rw [Config.isClientAllowed, hloop, hmode]
          rfl
        · rw [hadmits, hmode]
          trivial
      | range =>
        refine ⟨c.ipInRange ip, ?_, ?_⟩
        · rw [Config.isClientAllowed, hloop, hmode]
          rfl
        · rw [hadmits, hmode]
          exact ipInRange_iff c ip
      | specific =>
        obtain ⟨allowed, hallowed, hiff⟩ := isClientAllowed_specific hmode hloop
        refine ⟨allowed, hallowed, hiff.trans ?_⟩
        rw [hadmits, hmode]
        show (∃ entry ∈ c.allowedAddresses, Matches ip entry) ↔
          ∃ entry ∈ c.allowedAddresses, Names entry ip
        cases ip with
        | v4 a => simp only [matches_v4_iff]
        | v6 a =>
          simp only [matches_v6_iff]
          constructor
          · rintro ⟨entry, hentry, heq⟩
            exact ⟨entry, hentry, .address (by rw [heq, parseIp_display])⟩
          · rintro ⟨entry, hentry, hnames⟩
            cases hnames with
            | address h =>
              refine (hcanonical hmode entry hentry a h).resolve_left fun hl => ?_
              rw [show a.isLoopback = false from hloop] at hl
              cases hl

/-- A link-local address in capital letters is in the list, and its peer is turned away. -/
theorem filter_misses_capitals : ∃ c : Config, c.validate = true ∧ ¬ Exact c := by
  let c : Config := { filterMode := .specific, allowedAddresses := ["FE80::1"] }
  let peer : Ipv6Addr := { segments := [0xFE80, 0, 0, 0, 0, 0, 0, 1], length_eq := rfl }
  refine ⟨c, by decide, fun hexact => ?_⟩
  obtain ⟨allowed, hallowed, hiff⟩ := hexact (.v6 peer)
  have hrefused : c.isClientAllowed (.v6 peer) = some false := by decide +kernel
  obtain rfl := Option.some.inj (hallowed.symm.trans hrefused)
  have hread : parseIp (trim "FE80::1") = some (.v6 peer) := by decide +kernel
  have hadmits : Admits c (.v6 peer) := .inr ⟨"FE80::1", List.mem_singleton_self _, .address hread⟩
  exact absurd (hiff.mpr hadmits) Bool.false_ne_true

end Mbrc.Settings
