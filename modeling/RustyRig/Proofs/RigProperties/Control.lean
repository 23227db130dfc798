/-
The check of a control request is exact.

The distance from the first multiple is at most the width of the property's type, so unsigned
differences have it, and a multiple of the step by its remainder is one by divisibility.  The
loop over the choices compares with the words between spaces.
-/
import RustyRig.Rrserver.RigProperties
import Mathlib.Data.List.TakeWhile

namespace RustyRig

namespace RigControl

variable {signed : Bool} {v base : Int} {s : List Char}

/-! ### Integers -/

/-- A range that all integers of a type are in. -/
def InType (type : ValType) (v : Int) : Prop :=
  match type with
  | .uint | .ulong | .ullong => 0 ≤ v ∧ v < 2 ^ 64
  | _ => -2 ^ 63 ≤ v ∧ v < 2 ^ 63

theorem inType_zero (type : ValType) : InType type 0 := by
  cases type <;> simp [InType]

theorem integer_inType {x : Value} (h : x.integer signed = some v) : InType x.type v := by
  cases x with
  | int i =>
      obtain rfl := Option.some.inj h
      have hle := i.le_toInt
      have hlt := i.toInt_lt
      simp only [InType, Value.type]
      omega
  | uint n =>
      obtain rfl := Option.some.inj h
      have hlt := n.toNat_lt
      simp only [InType, Value.type]
      omega
  | long i =>
      obtain rfl := Option.some.inj h
      exact ⟨i.le_toInt, i.toInt_lt⟩
  | ulong n =>
      obtain rfl := Option.some.inj h
      have hlt := n.toNat_lt
      simp only [InType, Value.type]
      omega
  | llong i =>
      obtain rfl := Option.some.inj h
      exact ⟨i.le_toInt, i.toInt_lt⟩
  | ullong n =>
      obtain rfl := Option.some.inj h
      have hlt := n.toNat_lt
      simp only [InType, Value.type]
      omega
  | char c =>
      obtain rfl := Option.some.inj h
      have hlt := c.toNat_lt
      have hle := c.toInt8.le_toInt
      have hlt' := c.toInt8.toInt_lt
      simp only [InType, Value.type]
      split <;> omega
  | str _ | float _ | bool _ | double _ | ptr _ | null => exact absurd h (by simp [Value.integer])

theorem member_inType (type : ValType) (b : Value) : InType type (b.member signed type) := by
  unfold Value.member
  split
  · rename_i htype
    cases hb : b.integer signed with
    | none => exact inType_zero type
    | some z => exact htype ▸ integer_inType hb
  · exact inType_zero type

/-- Integers of one type are less than `2 ^ 64` apart. -/
theorem InType.close {type : ValType} (hv : InType type v) (hb : InType type base) :
    (v - base).natAbs < 2 ^ 64 := by
  cases type <;> simp only [InType] at hv hb <;> omega

theorem ofInt_sub_toNat (h : base ≤ v) (hclose : (v - base).natAbs < 2 ^ 64) :
    (UInt64.ofInt v - UInt64.ofInt base).toNat = (v - base).natAbs := by
  have hofInt : ∀ z : Int, ((UInt64.ofInt z).toNat : Int) = z % 2 ^ 64 := by
    intro z
    have hnonneg := Int.emod_nonneg z (show (2 : Int) ^ 64 ≠ 0 by decide)
    have hlt := Int.emod_lt_of_pos z (show (0 : Int) < 2 ^ 64 by decide)
    unfold UInt64.ofInt
    rw [UInt64.toNat_ofNat', Nat.mod_eq_of_lt (by omega)]
    exact Int.toNat_of_nonneg hnonneg
  have hv := hofInt v
  have hbase := hofInt base
  rw [UInt64.toNat_sub]
  omega

/-- The machine's distance is the distance. -/
theorem distance_toNat (hclose : (v - base).natAbs < 2 ^ 64) :
    (distance v base).toNat = (v - base).natAbs := by
  unfold distance
  split
  · rename_i h
    exact ofInt_sub_toNat h hclose
  · rename_i h
    have hswap : (base - v).natAbs = (v - base).natAbs := by omega
    rw [ofInt_sub_toNat (by omega) (by omega), hswap]

/-- What the integer check promises. -/
def IntegerLegal (v : Int) (minimum maximum step : Option Int) : Prop :=
  (∀ lo ∈ minimum, lo ≤ v) ∧ (∀ hi ∈ maximum, v ≤ hi) ∧
    ∀ k ∈ step, 0 < k ∧ k ∣ v - minimum.getD 0

theorem checkInteger_iff {type : ValType} {minimum maximum step : Option Int} (hv : InType type v)
    (hmin : ∀ lo ∈ minimum, InType type lo) (hstep : ∀ k ∈ step, InType type k) :
    checkInteger v minimum maximum step = true ↔ IntegerLegal v minimum maximum step := by
  have hbase : InType type (minimum.getD 0) := by
    cases minimum with
    | none => exact inType_zero type
    | some lo => exact hmin lo rfl
  have hclose := hv.close hbase
  unfold checkInteger IntegerLegal
  by_cases hlow : minimum.any (v < ·) = true
  · rw [hlow, Bool.true_or, if_pos rfl]
    obtain ⟨lo, hlo, hlt⟩ := (Option.any_eq_true _ _).mp hlow
    simp only [decide_eq_true_eq] at hlt
    refine ⟨fun h => absurd h (by simp), fun h => ?_⟩
    have hle := h.1 lo hlo
    omega
  by_cases hhigh : maximum.any (· < v) = true
  · rw [hhigh, Bool.or_true, if_pos rfl]
    obtain ⟨hi, hhi, hlt⟩ := (Option.any_eq_true _ _).mp hhigh
    simp only [decide_eq_true_eq] at hlt
    refine ⟨fun h => absurd h (by simp), fun h => ?_⟩
    have hle := h.2.1 hi hhi
    omega
  have hle : ∀ lo ∈ minimum, lo ≤ v := by
    intro lo hlo
    by_contra hlt
    exact hlow ((Option.any_eq_true _ _).mpr ⟨lo, hlo, by simpa using hlt⟩)
  have hge : ∀ hi ∈ maximum, v ≤ hi := by
    intro hi hhi
    by_contra hlt
    exact hhigh ((Option.any_eq_true _ _).mpr ⟨hi, hhi, by simpa using hlt⟩)
  rw [if_neg (by simp [hlow, hhigh])]
  cases step with
  | none => exact ⟨fun _ => ⟨hle, hge, by simp⟩, fun _ => rfl⟩
  | some k =>
      simp only
      by_cases hk : k ≤ 0
      · rw [if_pos hk]
        refine ⟨fun h => absurd h (by simp), fun h => ?_⟩
        have hpos := (h.2.2 k rfl).1
        omega
      have hkclose := (hstep k rfl).close (inType_zero type)
      have hkNat : (UInt64.ofInt k).toNat = k.natAbs := by
        have hsub := ofInt_sub_toNat (show (0 : Int) ≤ k by omega) hkclose
        simpa [UInt64.ofInt] using hsub
      have hdiv : distance v (minimum.getD 0) % UInt64.ofInt k = 0 ↔ k ∣ v - minimum.getD 0 := by
        rw [← UInt64.toNat_inj, UInt64.toNat_mod, distance_toNat hclose, hkNat, ← Int.natAbs_dvd_natAbs]
        exact (Nat.dvd_iff_mod_eq_zero ..).symm
      rw [if_neg hk, decide_eq_true_eq, hdiv]
      exact ⟨fun h => ⟨hle, hge, fun k' hk' => by
        obtain rfl := Option.some.inj hk'
        exact ⟨by omega, h⟩⟩, fun h => (h.2.2 k rfl).2⟩

/-! ### Choices -/

/-- The words between spaces. -/
def words (p : List Char) : List (List Char) := (p.splitOn ' ').filter (· ≠ [])

theorem words_space (cs : List Char) : words (' ' :: cs) = words cs := by
  unfold words
  rw [List.splitOn_cons_eq_if_modifyHead]
  simp

theorem words_dropWhile (p : List Char) : words (p.dropWhile (· = ' ')) = words p := by
  induction p with
  | nil => rfl
  | cons c cs ih =>
      by_cases hc : c = ' '
      · subst hc
        rw [List.dropWhile_cons_of_pos (by simp), ih, words_space]
      · rw [List.dropWhile_cons_of_neg (by simpa using hc)]

/-- A word in front of a space or of nothing. -/
theorem words_append {w rest : List Char} (hw : ' ' ∉ w) (hrest : rest = [] ∨ ∃ r, rest = ' ' :: r) :
    words (w ++ rest) = (if w = [] then [] else [w]) ++ words rest := by
  have hone : [w].filter (· ≠ []) = if w = [] then [] else [w] := by
    by_cases hnil : w = [] <;> simp [hnil]
  rcases hrest with rfl | ⟨r, rfl⟩
  · have hempty : words [] = [] := rfl
    rw [hempty, List.append_nil, List.append_nil, words, List.splitOn_eq_singleton hw, hone]
  · rw [words_space, words, List.splitOn_append_cons_self, List.splitOn_eq_singleton hw,
      List.filter_append, hone]
    rfl

/-- The first word and those that follow. -/
theorem words_split (p : List Char) : words p =
    (if p.takeWhile (· ≠ ' ') = [] then [] else [p.takeWhile (· ≠ ' ')]) ++
      words (p.drop (p.takeWhile (· ≠ ' ')).length) := by
  have hsplit : p.takeWhile (· ≠ ' ') ++ p.dropWhile (· ≠ ' ') = p := List.takeWhile_append_dropWhile
  have hword : ' ' ∉ p.takeWhile (· ≠ ' ') := fun hmem => by
    simpa using List.mem_takeWhile_imp hmem
  have hrest : p.dropWhile (· ≠ ' ') = [] ∨ ∃ r, p.dropWhile (· ≠ ' ') = ' ' :: r := by
    have hhead := List.head?_dropWhile_not (fun c : Char => decide (c ≠ ' ')) p
    cases hd : p.dropWhile (· ≠ ' ') with
    | nil => exact Or.inl rfl
    | cons c r =>
        rw [hd] at hhead
        simp only [List.head?_cons, decide_eq_false_iff_not, not_not] at hhead
        exact Or.inr ⟨r, by rw [hhead]⟩
  have hdrop : p.drop (p.takeWhile (· ≠ ' ')).length = p.dropWhile (· ≠ ' ') := by
    conv_lhs =>
      arg 2
      rw [← hsplit]
    exact List.drop_left
  rw [hdrop, ← words_append hword hrest, hsplit]

/-- The loop finds a choice among the words. -/
theorem enumFound_iff (s : List Char) : ∀ (p : List Char) (found : Bool),
    enumFound s p found = true ↔ found = true ∨ s ∈ words p := by
  intro p found
  fun_induction enumFound s p found with
  | case1 found => simp [words]
  | case2 found c cs p word ih =>
      have hall : words (c :: cs) = words p := (words_dropWhile (c :: cs)).symm
      have hsplit : words p = (if word = [] then [] else [word]) ++ words (p.drop word.length) :=
        words_split p
      rw [ih, hall, hsplit, List.mem_append, Bool.or_eq_true, Bool.and_eq_true, decide_eq_true_eq,
        decide_eq_true_eq, or_assoc]
      by_cases hnil : word = []
      · rw [if_pos hnil, hnil]
        constructor
        · rintro (h | ⟨hne, heq⟩ | h)
          · exact Or.inl h
          · exact absurd heq.symm hne
          · exact Or.inr (Or.inr h)
        · rintro (h | h | h)
          · exact Or.inl h
          · exact absurd h List.not_mem_nil
          · exact Or.inr (Or.inr h)
      · rw [if_neg hnil, List.mem_singleton]
        have hword : s ≠ [] ∧ word = s ↔ s = word :=
          ⟨fun h => h.2.symm, fun h => ⟨h ▸ hnil, h.symm⟩⟩
        rw [hword]

/-! ### Requests -/

/-- What the schema of a property asks of a value of its type. -/
structure Legal (signed : Bool) (p : Property) (v : Value) : Prop where
  integer : ∀ z, v.integer signed = some z →
    IntegerLegal z (p.schema.minimum.map (·.member signed p.type))
      (p.schema.maximum.map (·.member signed p.type)) (p.schema.step.map (·.member signed p.type))
  /-- A text is not NULL. -/
  text : v ≠ .str none
  choice : ∀ s e, v = .str (some s) → p.schema.enumValues = some e → s.toList ∈ words e.toList
  single : ∀ b, v = .float b →
    (∀ lo ∈ p.schema.minimum, ieeeLt 32 0x7F800000 b.toNat (bits32 lo) = false) ∧
      ∀ hi ∈ p.schema.maximum, ieeeLt 32 0x7F800000 (bits32 hi) b.toNat = false
  double : ∀ b, v = .double b →
    (∀ lo ∈ p.schema.minimum, ieeeLt 64 0x7FF0000000000000 b.toNat (bits64 lo) = false) ∧
      ∀ hi ∈ p.schema.maximum, ieeeLt 64 0x7FF0000000000000 (bits64 hi) b.toNat = false

theorem checkFloat_iff {w infinity n : Nat} {bits : Value → Nat} {minimum maximum : Option Value} :
    checkFloat w infinity n (minimum.map bits) (maximum.map bits) = true ↔
      (∀ lo ∈ minimum, ieeeLt w infinity n (bits lo) = false) ∧
        ∀ hi ∈ maximum, ieeeLt w infinity (bits hi) n = false := by
  unfold checkFloat
  cases minimum <;> cases maximum <;> simp

/-- Every integer type has the same check. -/
theorem valueAllowed_integer {p : Property} {x : Value} (h : x.integer signed = some v) :
    valueAllowed signed p x = checkInteger v (p.schema.minimum.map (·.member signed p.type))
      (p.schema.maximum.map (·.member signed p.type)) (p.schema.step.map (·.member signed p.type)) := by
  cases x with
  | int _ | uint _ | long _ | ulong _ | llong _ | ullong _ | char _ =>
      obtain rfl := Option.some.inj h
      rfl
  | str _ | float _ | bool _ | double _ | ptr _ | null => exact absurd h (by simp [Value.integer])

theorem valueAllowed_iff {p : Property} {x : Value} (htype : p.type = x.type) :
    valueAllowed signed p x = true ↔ Legal signed p x := by
  have hbounds : ∀ b : Option Value, ∀ z ∈ b.map (·.member signed p.type), InType p.type z := by
    intro b z hz
    obtain ⟨y, -, rfl⟩ := Option.map_eq_some_iff.mp hz
    exact member_inType p.type y
  cases hz : x.integer signed with
  | some z =>
      have hx : x ≠ .str none ∧ (∀ s, x ≠ .str (some s)) ∧ (∀ b, x ≠ .float b) ∧ ∀ b, x ≠ .double b := by
        refine ⟨?_, fun s => ?_, fun b => ?_, fun b => ?_⟩ <;>
        · rintro rfl
          exact absurd hz (by simp [Value.integer])
      rw [valueAllowed_integer hz,
        checkInteger_iff (htype ▸ integer_inType hz) (hbounds p.schema.minimum) (hbounds p.schema.step)]
      exact ⟨fun h => ⟨fun z' hz' => Option.some.inj (hz.symm.trans hz') ▸ h, hx.1,
        fun s _ hs => absurd hs (hx.2.1 s), fun b hb => absurd hb (hx.2.2.1 b),
        fun b hb => absurd hb (hx.2.2.2 b)⟩, fun h => h.integer z hz⟩
  | none =>
      have hint : ∀ z, x.integer signed = some z → IntegerLegal z
          (p.schema.minimum.map (·.member signed p.type)) (p.schema.maximum.map (·.member signed p.type))
          (p.schema.step.map (·.member signed p.type)) := fun z h => absurd (hz.symm.trans h) (by simp)
      cases x with
      | int _ | uint _ | long _ | ulong _ | llong _ | ullong _ | char _ => exact absurd hz (by simp [Value.integer])
      | bool _ | ptr _ | null =>
          exact ⟨fun _ => ⟨hint, by simp, by simp, by simp, by simp⟩, fun _ => rfl⟩
      | float b =>
          unfold valueAllowed
          rw [checkFloat_iff]
          refine ⟨fun h => ⟨hint, by simp, by simp, fun b' hb => ?_, by simp⟩, fun h => h.single b rfl⟩
          obtain rfl := Value.float.inj hb
          exact h
      | double b =>
          unfold valueAllowed
          rw [checkFloat_iff]
          refine ⟨fun h => ⟨hint, by simp, by simp, by simp, fun b' hb => ?_⟩, fun h => h.double b rfl⟩
          obtain rfl := Value.double.inj hb
          exact h
      | str s =>
          cases s with
          | none => exact ⟨fun h => absurd h Bool.false_ne_true, fun h => absurd rfl h.text⟩
          | some s =>
              unfold valueAllowed
              simp only
              cases he : p.schema.enumValues with
              | none =>
                  exact ⟨fun _ => ⟨hint, by simp, fun _ e _ h => absurd (he.symm.trans h) (by simp),
                    by simp, by simp⟩, fun _ => rfl⟩
              | some e =>
                  simp only
                  rw [enumFound_iff]
                  refine ⟨fun h => ⟨hint, by simp, fun s' e' hs he' => ?_, by simp, by simp⟩,
                    fun h => Or.inr (h.choice s e rfl he)⟩
                  obtain rfl := Option.some.inj (Value.str.inj hs)
                  obtain rfl := Option.some.inj (he.symm.trans he')
                  exact h.resolve_left (by simp)

/-- **The handler is called exactly for a legal value of a writable property**, with the property
by its own name, and the distance from the first multiple never overflows. -/
theorem control_called_iff (signed : Bool) (m : Memory) (r normalized : Request) :
    (control signed m r = .called normalized ↔
      r.property ≠ "" ∧ ∃ rig p, m.target r = some rig ∧ (∀ a ∈ r.rig, a = rig) ∧
        m.find rig r = some p ∧ p.writable = true ∧ p.type = r.value.type ∧ Legal signed p r.value ∧
        m.handler rig = true ∧
        normalized = ⟨some rig, (m.place rig r).1, (m.place rig r).2, r.value⟩) ∧
      ∀ (x : Value) (b : Option Value) (z : Int), x.integer signed = some z →
        (distance z ((b.map (·.member signed x.type)).getD 0)).toNat =
          (z - (b.map (·.member signed x.type)).getD 0).natAbs := by
  constructor
  swap
  · intro x b z hz
    refine distance_toNat ((integer_inType hz).close ?_)
    cases b with
    | none => exact inType_zero x.type
    | some b => exact member_inType x.type b
  unfold control
  split
  · rename_i hempty
    exact ⟨fun h => absurd h (by simp), fun h => absurd hempty h.1⟩
  rename_i hnamed
  split
  · rename_i htarget
    refine ⟨fun h => absurd h (by simp), ?_⟩
    rintro ⟨-, rig, -, h, -⟩
    exact absurd (htarget.symm.trans h) (by simp)
  rename_i rig htarget
  split
  · rename_i hother
    refine ⟨fun h => absurd h (by simp), ?_⟩
    rintro ⟨-, rig', -, h, hsame, -⟩
    obtain rfl := Option.some.inj (htarget.symm.trans h)
    obtain ⟨a, ha, hne⟩ := (Option.any_eq_true _ _).mp hother
    exact absurd (hsame a ha) (by simpa using hne)
  rename_i hsame
  have hsame : ∀ a ∈ r.rig, a = rig := by
    intro a ha
    by_contra hne
    exact hsame ((Option.any_eq_true _ _).mpr ⟨a, ha, by simpa using hne⟩)
  split
  · rename_i hfind
    refine ⟨fun h => absurd h (by simp), ?_⟩
    rintro ⟨-, rig', p, h, -, hp, -⟩
    obtain rfl := Option.some.inj (htarget.symm.trans h)
    exact absurd (hfind.symm.trans hp) (by simp)
  rename_i p hfind
  have hiff : (r.property ≠ "" ∧ ∃ rig p, m.target r = some rig ∧ (∀ a ∈ r.rig, a = rig) ∧
      m.find rig r = some p ∧ p.writable = true ∧ p.type = r.value.type ∧ Legal signed p r.value ∧
      m.handler rig = true ∧
      normalized = ⟨some rig, (m.place rig r).1, (m.place rig r).2, r.value⟩) ↔
      p.writable = true ∧ p.type = r.value.type ∧ Legal signed p r.value ∧ m.handler rig = true ∧
        normalized = ⟨some rig, (m.place rig r).1, (m.place rig r).2, r.value⟩ := by
    constructor
    · rintro ⟨-, rig', p', h, -, hp, hrest⟩
      obtain rfl := Option.some.inj (htarget.symm.trans h)
      obtain rfl := Option.some.inj (hfind.symm.trans hp)
      exact hrest
    · exact fun h => ⟨hnamed, rig, p, htarget, hsame, hfind, h⟩
  rw [hiff]
  split
  · rename_i hread
    exact ⟨fun h => absurd h (by simp), fun h => by simp [h.1] at hread⟩
  rename_i hwrite
  split
  · rename_i htype
    exact ⟨fun h => absurd h (by simp), fun h => absurd h.2.1 htype⟩
  rename_i htype
  have htype : p.type = r.value.type := Decidable.not_not.mp htype
  split
  · rename_i hrefused
    refine ⟨fun h => absurd h (by simp), fun h => ?_⟩
    have hallowed := (valueAllowed_iff htype).mpr h.2.2.1
    simp [hallowed] at hrefused
  rename_i hallowed
  have hallowed : valueAllowed signed p r.value = true := by simpa using hallowed
  have hwrite : p.writable = true := by simpa using hwrite
  have hlegal := (valueAllowed_iff htype).mp hallowed
  split
  · rename_i hnone
    exact ⟨fun h => absurd h (by simp), fun h => by simp [h.2.2.2.1] at hnone⟩
  rename_i hhandler
  have hhandler : m.handler rig = true := by simpa using hhandler
  exact ⟨fun h => ⟨hwrite, htype, hlegal, hhandler, (Result.called.inj h).symm⟩,
    fun h => congrArg Result.called h.2.2.2.2.symm⟩

/-! ### Values that are refused -/

/-- A rig with one writable property, and a handler. -/
def single (d : Descriptor) : Memory where
  rig _ := ⟨"rig", "rig", ⟨[{ Property.ofDescriptor d with writable := true }], 0, List.nodup_singleton _⟩,
    [], 0⟩
  owner _ := none
  handler _ := true

def choices : Descriptor := ⟨"mode", .str, true, true, none, none, none, none, some "AM\tFM"⟩

def level : Descriptor := ⟨"level", .float, true, true, none, none, some (.float 0), none, none⟩

/-- A choice behind a tab, a number above the greatest, and a text that is NULL: none is an integer,
and none is refused for its type. -/
theorem control_refuses :
    ¬ control true (single choices) ⟨some 0, none, "mode", .str (some "FM")⟩ =
        .called ⟨some 0, none, "mode", .str (some "FM")⟩ ∧
      ¬ control true (single level) ⟨some 0, none, "level", .float 0x3F800000⟩ =
        .called ⟨some 0, none, "level", .float 0x3F800000⟩ ∧
      ¬ control true (single { choices with enumValues := none }) ⟨some 0, none, "mode", .str none⟩ =
        .called ⟨some 0, none, "mode", .str none⟩ := by
  decide +kernel

end RigControl

end RustyRig
