/-
What the driver takes for a redirect.

Every scan stays inside of the bytes received: the loops over lines and blanks stop at the
empty line, and that was found with its four bytes.  So the response is read to the end, and
where it names a target, that stands in a `Location` line of a complete 307.
-/
import RustyRig.Rrbridge.KiwiRedirect
import RustyRig.Rrbridge.Kiwi

namespace RustyRig

namespace Kiwi

variable {buf target : List UInt8} {stop p i n : Nat}

/-- The bytes from `i` to `j`. -/
def slice (buf : List UInt8) (i j : Nat) : List UInt8 := (buf.drop i).take (j - i)

theorem slice_append_drop (h : i ≤ n) : slice buf i n ++ buf.drop n = buf.drop i := by
  have hdrop : buf.drop n = (buf.drop i).drop (n - i) := by
    rw [List.drop_drop, Nat.add_sub_cancel' h]
  rw [hdrop]
  exact List.take_append_drop _ _

theorem read_slice (h : i + n ≤ buf.length) : read buf i n = some (slice buf i (i + n)) := by
  unfold read slice
  rw [if_pos h, Nat.add_sub_cancel_left]

theorem readByte_some (h : i < buf.length) : readByte buf i = some buf[i] :=
  List.getElem?_eq_getElem h

/-- A line ends here. -/
def EndsAt (buf : List UInt8) (line : Nat) : Prop := slice buf line (line + 2) = [13, 10]

/-! ### The loops -/

theorem headersEnd_spec (buf : List UInt8) (p : Nat) : ∃ found, headersEnd buf p = some found ∧
    ∀ stop, found = some stop → stop + 4 ≤ buf.length ∧ slice buf stop (stop + 4) = [13, 10, 13, 10] := by
  fun_induction headersEnd buf p with
  | case1 p hlt hnone =>
      rw [read_slice (by omega)] at hnone
      exact absurd hnone (by simp)
  | case2 p hlt hword =>
      refine ⟨_, rfl, ?_⟩
      rintro stop hstop
      obtain rfl := Option.some.inj hstop
      rw [read_slice (by omega)] at hword
      exact ⟨by omega, Option.some.inj hword⟩
  | case3 p hlt word hword hne ih => exact ih
  | case4 p hge => exact ⟨none, rfl, fun _ h => absurd h (by simp)⟩

theorem lineEnd_spec (hstop : stop + 4 ≤ buf.length) (scan : Nat) :
    ∃ found, lineEnd buf stop scan = some found ∧
      ∀ line, found = some line → scan ≤ line ∧ line ≤ stop ∧ EndsAt buf line := by
  fun_induction lineEnd buf stop scan with
  | case1 scan hlt hnone =>
      rw [readByte_some (by omega)] at hnone
      exact absurd hnone (by simp)
  | case2 scan hlt hnext hc =>
      rw [readByte_some (by omega)] at hnext
      exact absurd hnext (by simp)
  | case3 scan hlt hc hd =>
      refine ⟨_, rfl, ?_⟩
      rintro line hline
      obtain rfl := Option.some.inj hline
      rw [readByte_some (by omega)] at hc hd
      have hfirst : buf[scan] = 13 := Option.some.inj hc
      have hsecond : buf[scan + 1] = 10 := Option.some.inj hd
      refine ⟨Nat.le_refl _, by omega, ?_⟩
      unfold EndsAt slice
      rw [Nat.add_sub_cancel_left, List.drop_eq_getElem_cons (by omega),
        List.drop_eq_getElem_cons (by omega), hfirst, hsecond]
      rfl
  | case4 scan hlt hc d hd hne ih =>
      obtain ⟨found, hfound, hspec⟩ := ih
      exact ⟨found, hfound, fun line hline => ⟨Nat.le_of_succ_le (hspec line hline).1, (hspec line hline).2⟩⟩
  | case5 scan hlt c hc hne ih =>
      obtain ⟨found, hfound, hspec⟩ := ih
      exact ⟨found, hfound, fun line hline => ⟨Nat.le_of_succ_le (hspec line hline).1, (hspec line hline).2⟩⟩
  | case6 scan hge => exact ⟨none, rfl, fun _ h => absurd h (by simp)⟩

theorem skipBlanks_spec {line loc : Nat} (hline : line ≤ buf.length) (hle : loc ≤ line) :
    ∃ value, skipBlanks buf line loc = some value ∧ loc ≤ value ∧ value ≤ line ∧
      ∀ c ∈ slice buf loc value, c = 32 ∨ c = 9 := by
  fun_induction skipBlanks buf line loc with
  | case1 loc hlt hnone =>
      rw [readByte_some (by omega)] at hnone
      exact absurd hnone (by simp)
  | case2 loc hlt c hc hblank ih =>
      obtain ⟨value, hvalue, hge, hle', hall⟩ := ih hlt
      refine ⟨value, hvalue, by omega, hle', ?_⟩
      have hsplit : slice buf loc value = buf[loc] :: slice buf (loc + 1) value := by
        unfold slice
        rw [List.drop_eq_getElem_cons (by omega)]
        obtain ⟨m, hm⟩ : ∃ m, value - loc = m + 1 := ⟨value - loc - 1, by omega⟩
        rw [hm, List.take_succ_cons, show value - (loc + 1) = m by omega]
      rw [readByte_some (by omega)] at hc
      intro x hx
      rw [hsplit, Option.some.inj hc] at hx
      rcases List.mem_cons.mp hx with rfl | hx
      · exact hblank
      · exact hall x hx
  | case3 loc hlt c hc hblank => exact ⟨loc, rfl, Nat.le_refl _, hle, by simp [slice]⟩
  | case4 loc hge => exact ⟨loc, rfl, Nat.le_refl _, hle, by simp [slice]⟩

/-! ### The target -/

/-- A target in a `Location` line. -/
structure Located (buf target : List UInt8) : Prop where
  line : ∃ front name blanks rest, buf = front ++ (name ++ (blanks ++ (target ++ ([13, 10] ++ rest)))) ∧
    (front = [] ∨ [13, 10] <:+ front) ∧ name.map lower = ascii "location:" ∧
      ∀ c ∈ blanks, c = 32 ∨ c = 9

/-- Where a header line begins. -/
def BeginsAt (buf : List UInt8) (p : Nat) : Prop := p = 0 ∨ 2 ≤ p ∧ EndsAt buf (p - 2)

theorem BeginsAt.front (h : BeginsAt buf p) (hp : p ≤ buf.length) :
    buf.take p = [] ∨ [13, 10] <:+ buf.take p := by
  rcases h with rfl | ⟨hge, hends⟩
  · exact Or.inl List.take_zero
  · right
    refine ⟨buf.take (p - 2), ?_⟩
    have hsplit : buf.take p = buf.take (p - 2) ++ slice buf (p - 2) p := by
      unfold slice
      rw [← List.take_append_drop (p - 2) (buf.take p), List.take_take, Nat.min_eq_left (by omega),
        List.drop_take]
    rw [hsplit]
    unfold EndsAt at hends
    rw [show p - 2 + 2 = p by omega] at hends
    rw [hends]

/-- What lies between a name and the end of its line is its value. -/
theorem located_of {loc line : Nat} (hbegins : BeginsAt buf p) (hname : p + 9 ≤ loc) (hloc : loc ≤ line)
    (hline : line + 2 ≤ buf.length) (hends : EndsAt buf line)
    (hlocation : (slice buf p (p + 9)).map lower = ascii "location:")
    (hblanks : ∀ c ∈ slice buf (p + 9) loc, c = 32 ∨ c = 9) : Located buf (slice buf loc line) := by
  refine ⟨buf.take p, slice buf p (p + 9), slice buf (p + 9) loc, buf.drop (line + 2), ?_,
    hbegins.front (by omega), hlocation, hblanks⟩
  have hvalue : slice buf loc line ++ ([13, 10] ++ buf.drop (line + 2)) = buf.drop loc := by
    unfold EndsAt at hends
    rw [← hends, slice_append_drop (by omega), slice_append_drop hloc]
  rw [hvalue, slice_append_drop hname, slice_append_drop (by omega), List.take_append_drop]

theorem location_spec (hstop : stop + 4 ≤ buf.length) (hbegins : BeginsAt buf p) :
    ∃ found, location buf stop p = some found ∧ ∀ loc len, found = some (loc, len) →
      loc + len ≤ buf.length ∧ Located buf (slice buf loc (loc + len)) := by
  fun_induction location buf stop p with
  | case1 p hlt hnone =>
      obtain ⟨found, hfound, -⟩ := lineEnd_spec hstop p
      exact absurd (hnone.symm.trans hfound) (by simp)
  | case2 p hlt hnone => exact ⟨none, rfl, fun _ _ h => absurd h (by simp)⟩
  | case3 p hlt line hline hover => exact ⟨none, rfl, fun _ _ h => absurd h (by simp)⟩
  | case4 p hlt line hline hle hlong hnone =>
      rw [read_slice (by omega)] at hnone
      exact absurd hnone (by simp)
  | case5 p hlt line hline hle hlong name hread hname =>
      obtain ⟨found, hfound, hspec⟩ := lineEnd_spec hstop p
      obtain ⟨hge, hmost, hends⟩ := hspec line (Option.some.inj (hfound.symm.trans hline))
      rw [read_slice (by omega)] at hread
      obtain ⟨value, hvalue, hfrom, hto, hblanks⟩ :=
        skipBlanks_spec (show line ≤ buf.length by omega) (show p + 9 ≤ line by omega)
      rw [hvalue]
      refine ⟨_, rfl, ?_⟩
      rintro loc len hfound'
      obtain ⟨rfl, rfl⟩ := Prod.mk.inj (Option.some.inj hfound')
      rw [Nat.add_sub_cancel' hto]
      refine ⟨by omega, located_of hbegins hfrom hto (by omega) hends ?_ hblanks⟩
      rw [Option.some.inj hread]
      exact hname
  | case6 p hlt line hline hle hlong name hread hname ih =>
      obtain ⟨found, hfound, hspec⟩ := lineEnd_spec hstop p
      obtain ⟨hge, hmost, hends⟩ := hspec line (Option.some.inj (hfound.symm.trans hline))
      exact ih (Or.inr ⟨by omega, hends⟩)
  | case7 p hlt line hline hle hshort ih =>
      obtain ⟨found, hfound, hspec⟩ := lineEnd_spec hstop p
      obtain ⟨hge, hmost, hends⟩ := hspec line (Option.some.inj (hfound.symm.trans hline))
      exact ih (Or.inr ⟨by omega, hends⟩)
  | case8 p hge => exact ⟨none, rfl, fun _ _ h => absurd h (by simp)⟩

/-- A complete HTTP 307 that names a target. -/
structure Moved (buf target : List UInt8) : Prop where
  start : buf.take 5 = ascii "HTTP/"
  status : (buf.drop 9).take 3 = ascii "307"
  complete : [13, 10, 13, 10] <:+: buf
  located : Located buf target

theorem slice_infix (buf : List UInt8) (i j : Nat) : slice buf i j <:+: buf :=
  (List.take_prefix _ _).isInfix.trans (List.drop_suffix _ _).isInfix

/-- The response is read to the end, and a target is where it has to be. -/
theorem response_spec (buf : List UInt8) : ∃ r, response buf = some r ∧
    ∀ target, r = .moved (some target) → Moved buf target ∧ target.length < 512 := by
  unfold response
  split
  · exact ⟨.other, rfl, fun _ h => absurd h (by simp)⟩
  rename_i hlength
  have hlength : 12 ≤ buf.length := by omega
  have hother : ∃ r, some Response.other = some r ∧
      ∀ target, r = .moved (some target) → Moved buf target ∧ target.length < 512 :=
    ⟨.other, rfl, fun _ h => absurd h (by simp)⟩
  have hunnamed : ∃ r, some (Response.moved none) = some r ∧
      ∀ target, r = .moved (some target) → Moved buf target ∧ target.length < 512 :=
    ⟨.moved none, rfl, fun _ h => absurd h (by simp)⟩
  obtain ⟨headers, hheaders, hcomplete⟩ := headersEnd_spec buf 0
  rw [read_slice (by omega), read_slice (show 9 + 3 ≤ buf.length by omega), hheaders]
  simp only [Option.bind_eq_bind, Option.bind_some]
  split
  · exact hother
  rename_i hstart
  have hstart := not_not.mp hstart
  cases headers with
  | none => exact hother
  | some stop =>
      obtain ⟨hroom, hempty⟩ := hcomplete stop rfl
      obtain ⟨found, hfound, hspec⟩ := location_spec (p := 0) hroom (Or.inl rfl)
      simp only
      split
      · exact hother
      rename_i hstatus
      have hstatus := not_not.mp hstatus
      rw [hfound]
      cases found with
      | none => exact hunnamed
      | some place =>
          obtain ⟨loc, len⟩ := place
          obtain ⟨hread, hlocated⟩ := hspec loc len rfl
          simp only [Option.bind_some]
          split
          · exact hunnamed
          rename_i hlen
          rw [read_slice hread]
          refine ⟨_, rfl, ?_⟩
          rintro target htarget
          obtain rfl := Option.some.inj (Response.moved.inj htarget)
          refine ⟨⟨hstart, hstatus, ?_, hlocated⟩, ?_⟩
          · rw [← hempty]
            exact slice_infix _ _ _
          · unfold slice
            rw [List.length_take]
            omega

end Kiwi

end RustyRig

/-!
When following a redirect is safe.

The URL that the target resolves to is compared with the current one, and only then, if it is
a root, given the path of the current one; where it is the root of the very same authority
that makes the URL just used.  The password keeps the authority, but not the scheme.  What is
left of a redirect is as it should be: `redirect_safe_iff`.
-/

namespace RustyRig

namespace Kiwi

variable {k k' : Kiwi} {password : Option (List UInt8)} {url next text path : List UInt8}
  {needle : List UInt8} {i : Nat}

/-! ### Parts of a URL -/

theorem find_spec (h : find needle url = some i) : needle <+: url.drop i ∧ i ≤ url.length := by
  induction url generalizing i with
  | nil =>
      unfold find at h
      split at h
      · rename_i hnil
        obtain rfl := Option.some.inj h
        exact ⟨by simp [hnil], Nat.le_refl _⟩
      · exact absurd h (by simp)
  | cons c url ih =>
      unfold find at h
      split at h
      · rename_i hhead
        obtain rfl := Option.some.inj h
        exact ⟨List.isPrefixOf_iff_prefix.mp hhead, Nat.zero_le _⟩
      · obtain ⟨j, hj, rfl⟩ := Option.map_eq_some_iff.mp h
        obtain ⟨hfound, hle⟩ := ih hj
        exact ⟨by simpa using hfound, by simpa using hle⟩

/-- What is found first stays first when more follows. -/
theorem find_append (h : find needle url = some i) (text : List UInt8) :
    find needle (url ++ text) = some i := by
  induction url generalizing i with
  | nil =>
      unfold find at h
      split at h
      · rename_i hnil
        obtain rfl := Option.some.inj h
        subst hnil
        cases text <;> simp [find]
      · exact absurd h (by simp)
  | cons c url ih =>
      unfold find at h
      rw [List.cons_append]
      unfold find
      split at h
      · rename_i hhead
        obtain rfl := Option.some.inj h
        have hmore : needle <+: c :: (url ++ text) :=
          (List.isPrefixOf_iff_prefix.mp hhead).trans (List.prefix_append (c :: url) text)
        rw [if_pos (List.isPrefixOf_iff_prefix.mpr hmore)]
      · rename_i hhead
        obtain ⟨j, hj, rfl⟩ := Option.map_eq_some_iff.mp h
        have hlong : needle.length ≤ (c :: url).length := by
          have hfound := (find_spec hj).1.length_le
          rw [List.length_drop] at hfound
          rw [List.length_cons]
          omega
        have hnot : ¬ needle.isPrefixOf (c :: (url ++ text)) = true := by
          intro hmore
          refine hhead (List.isPrefixOf_iff_prefix.mpr ?_)
          exact List.prefix_of_prefix_length_le (List.isPrefixOf_iff_prefix.mp hmore)
            (List.prefix_append (c :: url) text) hlong
        rw [if_neg hnot, ih hj]
        rfl

theorem pathOf_some (h : pathOf url = some path) :
    (∃ rest, afterScheme url = some rest ∧ path = rest.dropWhile (· ≠ 47)) ∧ path.head? = some 47 := by
  unfold pathOf at h
  obtain ⟨rest, hrest, hpath⟩ := Option.bind_eq_some_iff.mp h
  split at hpath
  · exact absurd hpath (by simp)
  · rename_i tail htail
    obtain rfl := Option.some.inj hpath
    refine ⟨⟨rest, hrest, rfl⟩, ?_⟩
    cases hdrop : rest.dropWhile (· ≠ 47) with
    | nil => exact absurd hdrop htail
    | cons c tail =>
        have hhead := List.head?_dropWhile_not (fun x => decide (x ≠ 47)) rest
        rw [hdrop] at hhead
        simpa using hhead

theorem suffix_of_pathOf (h : pathOf url = some path) : path <:+ url := by
  obtain ⟨⟨rest, hrest, rfl⟩, -⟩ := pathOf_some h
  unfold afterScheme at hrest
  obtain ⟨i, -, rfl⟩ := Option.map_eq_some_iff.mp hrest
  exact (List.dropWhile_suffix _).trans (List.drop_suffix _ _)

theorem root_append (h : pathOf url = some path) : root url ++ path = url := by
  obtain ⟨front, rfl⟩ := suffix_of_pathOf h
  unfold root
  rw [h]
  simp

theorem find_isSome (h : needle <:+: url) : ∃ i, find needle url = some i := by
  induction url with
  | nil => exact ⟨0, by simp [find, List.infix_nil.mp h]⟩
  | cons c url ih =>
      unfold find
      split
      · exact ⟨0, rfl⟩
      · rename_i hhead
        rcases List.infix_cons_iff.mp h with hhere | hlater
        · exact absurd (List.isPrefixOf_iff_prefix.mpr hhere) hhead
        · obtain ⟨i, hi⟩ := ih hlater
          exact ⟨i + 1, by rw [hi]; rfl⟩

/-- Only letters are written in two ways. -/
theorem eq_of_lower {c d : UInt8} (h : lower c = d) (hd : d.toNat < 65) : c = d := by
  unfold lower at h
  split at h
  · rename_i hupper
    have hsum := congrArg UInt8.toNat h
    have hge := UInt8.le_iff_toNat_le.mp hupper.1
    have hle := UInt8.le_iff_toNat_le.mp hupper.2
    have h65 : (65 : UInt8).toNat = 65 := rfl
    have h90 : (90 : UInt8).toNat = 90 := rfl
    rw [UInt8.toNat_add, show (32 : UInt8).toNat = 32 from rfl] at hsum
    omega
  · exact h

theorem map_lower_eq {l m : List UInt8} (h : l.map lower = m) (hm : ∀ d ∈ m, d.toNat < 65) : l = m := by
  subst h
  induction l with
  | nil => rfl
  | cons c l ih =>
      have hc : c = lower c := eq_of_lower rfl (hm _ List.mem_cons_self)
      have hl : l = l.map lower := ih fun d hd => hm d (List.mem_cons_of_mem _ hd)
      rw [List.map_cons, ← hc, ← hl]

theorem colon_infix {scheme : String} {target : List UInt8}
    (hscheme : (ascii scheme).drop (scheme.length - 3) = ascii "://") (h : startsWith scheme target = true) :
    ascii "://" <:+: target := by
  unfold startsWith at h
  have hmap : ((target.take scheme.length).drop (scheme.length - 3)).map lower = ascii "://" := by
    rw [List.map_drop, of_decide_eq_true h]
    exact hscheme
  have hlit : (target.take scheme.length).drop (scheme.length - 3) = ascii "://" :=
    map_lower_eq hmap (by decide +kernel)
  rw [← hlit]
  exact (List.drop_suffix _ _).isInfix.trans (List.take_prefix _ _).isInfix

theorem root_eq (h : find (ascii "://") url = some i) :
    root url = url.take i ++ (ascii "://" ++ authority (url.drop (i + 3))) := by
  obtain ⟨hhead, -⟩ := find_spec h
  have hsplit : url = url.take i ++ (ascii "://" ++ url.drop (i + 3)) := by
    obtain ⟨rest, hrest⟩ := hhead
    have hdrop : url.drop (i + 3) = rest := by
      rw [← List.drop_drop, ← hrest]
      rfl
    rw [hdrop, hrest, List.take_append_drop]
  have hafter : afterScheme url = some (url.drop (i + 3)) := by
    unfold afterScheme
    rw [h]
    rfl
  cases hpath : pathOf url with
  | none =>
      have hall : (url.drop (i + 3)).dropWhile (· ≠ 47) = [] := by
        unfold pathOf at hpath
        rw [hafter, Option.bind_some] at hpath
        split at hpath
        · assumption
        · exact absurd hpath (by simp)
      have hauthority : authority (url.drop (i + 3)) = url.drop (i + 3) := by
        have hsum := List.takeWhile_append_dropWhile (p := fun x => decide (x ≠ 47)) (l := url.drop (i + 3))
        rw [hall, List.append_nil] at hsum
        exact hsum
      rw [hauthority, ← hsplit]
      unfold root
      rw [hpath]
      simp
  | some path =>
      obtain ⟨⟨rest, hrest, rfl⟩, -⟩ := pathOf_some hpath
      obtain rfl : url.drop (i + 3) = rest := Option.some.inj (hafter.symm.trans hrest)
      refine (List.append_left_inj ((url.drop (i + 3)).dropWhile (· ≠ 47))).mp ?_
      rw [root_append hpath, List.append_assoc, List.append_assoc]
      unfold authority
      rw [List.takeWhile_append_dropWhile]
      exact hsplit

/-- What a target resolves to has a scheme. -/
theorem resolve_colon {target : List UInt8} (h : resolve url target = some next) :
    ∃ i, find (ascii "://") next = some i := by
  unfold resolve at h
  refine find_isSome ?_
  split at h
  · obtain rfl := Option.some.inj h
    exact List.IsInfix.trans ⟨ascii "wss", [], rfl⟩ (List.prefix_append _ _).isInfix
  split at h
  · obtain rfl := Option.some.inj h
    exact List.IsInfix.trans ⟨ascii "ws", [], rfl⟩ (List.prefix_append _ _).isInfix
  split at h
  · rename_i hws
    obtain rfl := Option.some.inj h
    rcases Bool.or_eq_true _ _ ▸ hws with hws | hws
    · exact colon_infix (by decide) hws
    · exact colon_infix (by decide) hws
  split at h
  · split at h
    · exact absurd h (by simp)
    rename_i hafter
    split at h
    · exact absurd h (by simp)
    obtain rfl := Option.some.inj h
    obtain ⟨i, hi, -⟩ := Option.map_eq_some_iff.mp hafter
    rw [root_eq hi]
    refine List.IsInfix.trans ?_ (List.prefix_append _ _).isInfix
    exact ⟨url.take i, authority (url.drop (i + 3)), by simp⟩
  · exact absurd h (by simp)

theorem resolve_fits {target : List UInt8} (h : resolve url target = some next)
    (hlength : target.length < 512) : next.length < 512 := by
  unfold resolve at h
  split at h
  · obtain rfl := Option.some.inj h
    rw [List.length_append, List.length_drop, show (ascii "wss://").length = 6 from rfl]
    omega
  split at h
  · obtain rfl := Option.some.inj h
    rw [List.length_append, List.length_drop, show (ascii "ws://").length = 5 from rfl]
    omega
  split at h
  · obtain rfl := Option.some.inj h
    exact hlength
  split at h
  · split at h
    · exact absurd h (by simp)
    split at h
    · exact absurd h (by simp)
    obtain rfl := Option.some.inj h
    rw [List.length_append]
    omega
  · exact absurd h (by simp)

/-! ### Roots -/

/-- A root is given the path of the current URL behind it, or nothing is. -/
theorem retain_cases (url next : List UInt8) : retain url next = next ∨
    ∃ path, pathOf url = some path ∧ (find (ascii "/SND") url).isSome = true ∧
      next.getLast? = some 47 ∧ retain url next = next.dropLast ++ path := by
  unfold retain
  split
  · rename_i hroot
    split
    · rename_i path hpath
      split
      · exact Or.inr ⟨path, hpath, hroot.2, hroot.1, rfl⟩
      · exact Or.inl rfl
    · exact Or.inl rfl
  · exact Or.inl rfl

/-- The path begins with the slash that the root ends with, so what is retained goes on from the root. -/
theorem retain_append (url next : List UInt8) : ∃ rest, retain url next = next ++ rest := by
  rcases retain_cases url next with heq | ⟨path, hpath, -, hlast, heq⟩
  · exact ⟨[], by rw [heq, List.append_nil]⟩
  · obtain ⟨-, hhead⟩ := pathOf_some hpath
    obtain ⟨rest, rfl⟩ := List.head?_eq_some_iff.mp hhead
    refine ⟨rest, ?_⟩
    have hnext : next.dropLast ++ [47] = next := List.dropLast_append_getLast? 47 hlast
    rw [heq, ← List.singleton_append, ← List.append_assoc, hnext]

/-- The root of the current URL gets the current URL. -/
theorem retain_root {url : Url} (hsnd : (find (ascii "/SND") url.bytes).isSome = true)
    (hpath : (pathOf url.bytes).isSome = true) : retain url.bytes (root url.bytes ++ [47]) = url.bytes := by
  obtain ⟨path, hpath⟩ := Option.isSome_iff_exists.mp hpath
  have hurl := root_append hpath
  have hlength := congrArg List.length hurl
  rw [List.length_append] at hlength
  have hfits := url.fits
  unfold retain
  rw [if_pos ⟨by simp, hsnd⟩, hpath]
  simp only [List.length_append, List.length_singleton, List.dropLast_concat]
  rw [if_pos (by omega)]
  exact hurl

theorem eq_root_of_retain (h : retain url next = url) (hne : next ≠ url) :
    next = root url ++ [47] ∧ (find (ascii "/SND") url).isSome = true ∧
      (pathOf url).isSome = true := by
  rcases retain_cases url next with heq | ⟨path, hpath, hsnd, hlast, heq⟩
  · exact absurd (heq.symm.trans h) hne
  · have hfront : next.dropLast = root url := by
      refine (List.append_left_inj path).mp ?_
      rw [← heq, h, root_append hpath]
    have hnext : next.dropLast ++ [47] = next := List.dropLast_append_getLast? 47 hlast
    rw [← hnext, hfront]
    exact ⟨rfl, hsnd, by rw [hpath]; rfl⟩

/-! ### Origins -/

def schemeOf (url : List UInt8) : Option (List UInt8) := (find (ascii "://") url).map url.take

/-- Scheme, host and port, as they compare. -/
def origin (url : List UInt8) : Option (List UInt8 × List UInt8) :=
  (find (ascii "://") url).map fun i => ((url.take i).map lower, (authority (url.drop (i + 3))).map lower)

theorem schemeOf_retain (h : ∃ i, find (ascii "://") next = some i) :
    schemeOf (retain url next) = schemeOf next := by
  obtain ⟨i, hi⟩ := h
  obtain ⟨rest, hrest⟩ := retain_append url next
  unfold schemeOf
  rw [hrest, find_append hi, hi]
  simp only [Option.map_some]
  rw [List.take_append_of_le_length (find_spec hi).2]

theorem origin_eq_iff (hset : password.getD [] ≠ []) (hallows : passwordAllows password url next = true) :
    origin next = origin url ↔
      (schemeOf next).map (List.map lower) = (schemeOf url).map (List.map lower) := by
  unfold passwordAllows at hallows
  rw [if_neg hset] at hallows
  split at hallows
  · rename_i old dest hold hdest
    obtain ⟨i, hi, rfl⟩ := Option.map_eq_some_iff.mp hold
    obtain ⟨j, hj, rfl⟩ := Option.map_eq_some_iff.mp hdest
    have hauthority := of_decide_eq_true hallows
    unfold origin schemeOf
    rw [hi, hj]
    simp only [Option.map_some, Option.some.injEq, Prod.mk.injEq, hauthority, and_true]
  · exact absurd hallows (by simp)

theorem passwordAllows_self (hpath : (pathOf url).isSome = true) : passwordAllows password url url = true := by
  obtain ⟨path, hpath⟩ := Option.isSome_iff_exists.mp hpath
  obtain ⟨⟨rest, hrest, -⟩, -⟩ := pathOf_some hpath
  unfold passwordAllows
  split
  · rfl
  · rw [hrest]
    simp

/-! ### A response -/

def Printable (target : List UInt8) : Prop := ∀ c ∈ target, 33 ≤ c ∧ c ≤ 126

/-- What a redirect that is followed has to be. -/
structure Followed (k k' : Kiwi) (password : Option (List UInt8)) (buf : List UInt8) : Prop where
  moved : ∃ target, Moved buf target ∧ Printable target
  fresh : k'.redirectUrl.bytes ≠ k.url.bytes
  origin : password.getD [] ≠ [] → origin k'.redirectUrl.bytes = origin k.url.bytes

/-- The response is read inside of its bytes, and is not followed where it should not be. -/
def Safe (k : Kiwi) (password : Option (List UInt8)) (websocket : Bool) (buf : List UInt8) : Prop :=
  ∃ ok k', redirect k password websocket buf = some (ok, k') ∧
    (ok = true → Followed k k' password buf)

/-- A target to be followed. -/
structure Offered (k : Kiwi) (websocket : Bool) (buf target : List UInt8) : Prop where
  handshake : websocket = false
  response : response buf = some (.moved (some target))
  hops : k.redirects < 8
  printable : Printable target

/-- A target that the driver judges rightly: it is not the root of the current authority, to which the
path of a sound stream would be given, and with a password it keeps the scheme, where the authority is
the current one. -/
structure Apart (k : Kiwi) (password : Option (List UInt8)) (target : List UInt8) : Prop where
  root : ¬ (resolve k.url.bytes target = some (root k.url.bytes ++ [47]) ∧
    root k.url.bytes ++ [47] ≠ k.url.bytes ∧ (find (ascii "/SND") k.url.bytes).isSome = true ∧
      (pathOf k.url.bytes).isSome = true)
  scheme : password.getD [] ≠ [] → ∀ next, resolve k.url.bytes target = some next →
    passwordAllows password k.url.bytes (retain k.url.bytes next) = true →
      (schemeOf next).map (List.map lower) = (schemeOf k.url.bytes).map (List.map lower)

theorem printable_iff {target : List UInt8} :
    (target.any fun c => c < 33 || 126 < c) = false ↔ Printable target := by
  unfold Printable
  rw [List.any_eq_false]
  simp only [Bool.or_eq_true, decide_eq_true_eq, not_or, UInt8.not_lt]

theorem follow_iff {target buf : List UInt8} (hmoved : Moved buf target) (hlength : target.length < 512) :
    ((follow k password target).1 = true → Followed k (follow k password target).2 password buf) ↔
      (Printable target → Apart k password target) := by
  unfold follow
  by_cases hprint : Printable target
  swap
  · have hany : (target.any fun c => c < 33 || 126 < c) = true := by
      rw [← Bool.not_eq_false, printable_iff]
      exact hprint
    rw [if_pos hany]
    exact ⟨fun _ h => absurd h hprint, fun _ h => absurd h (by simp)⟩
  rw [if_neg (by rw [Bool.not_eq_true]; exact printable_iff.mpr hprint)]
  cases hresolve : resolve k.url.bytes target with
  | none =>
      refine ⟨fun _ _ => ⟨fun h => ?_, fun _ next h => ?_⟩, fun _ h => absurd h (by simp)⟩
      · exact absurd (hresolve.symm.trans h.1) (by simp)
      · exact absurd (hresolve.symm.trans h) (by simp)
  | some next =>
      have hcolon := resolve_colon hresolve
      simp only [resolve_fits hresolve hlength, dif_pos]
      by_cases hsame : next = k.url.bytes
      · rw [if_pos hsame]
        refine ⟨fun _ _ => ⟨fun h => ?_, fun _ x h _ => ?_⟩, fun _ h => absurd h (by simp)⟩
        · exact h.2.1 ((Option.some.inj (hresolve.symm.trans h.1)).symm.trans hsame)
        · rw [← Option.some.inj (hresolve.symm.trans h), hsame]
      rw [if_neg hsame]
      cases hallows : passwordAllows password k.url.bytes (retain k.url.bytes next) with
      | false =>
          simp only [Bool.not_false, if_true]
          refine ⟨fun _ _ => ⟨fun h => ?_, fun _ x h hx => ?_⟩, fun _ h => absurd h (by simp)⟩
          · obtain rfl : next = root k.url.bytes ++ [47] := Option.some.inj (hresolve.symm.trans h.1)
            rw [retain_root h.2.2.1 h.2.2.2, passwordAllows_self h.2.2.2] at hallows
            exact absurd hallows (by simp)
          · rw [← Option.some.inj (hresolve.symm.trans h), hallows] at hx
            exact absurd hx (by simp)
      | true =>
          simp only [Bool.not_true, Bool.false_eq_true, if_false, forall_const]
          constructor
          · intro hfollowed _
            refine ⟨fun h => ?_, fun hset x h _ => ?_⟩
            · obtain rfl : next = root k.url.bytes ++ [47] := Option.some.inj (hresolve.symm.trans h.1)
              exact hfollowed.fresh (retain_root h.2.2.1 h.2.2.2)
            · obtain rfl : next = x := Option.some.inj (hresolve.symm.trans h)
              have horigin := (origin_eq_iff hset hallows).mp (hfollowed.origin hset)
              rw [schemeOf_retain hcolon] at horigin
              exact horigin
          · intro happart
            have happart := happart hprint
            refine ⟨⟨target, hmoved, hprint⟩, fun h => ?_, fun hset => ?_⟩
            · obtain ⟨hroot, hsnd, hpath⟩ := eq_root_of_retain h hsame
              exact happart.root ⟨hresolve.trans (congrArg some hroot), hroot ▸ hsame, hsnd, hpath⟩
            · refine (origin_eq_iff hset hallows).mpr ?_
              rw [schemeOf_retain hcolon]
              exact happart.scheme hset next hresolve hallows

theorem safe_of_refused {websocket : Bool} {buf : List UInt8}
    (h : ∃ k', redirect k password websocket buf = some (false, k')) : Safe k password websocket buf :=
  let ⟨k', hk⟩ := h
  ⟨false, k', hk, fun h => absurd h (by simp)⟩

/-- A response is dealt with as it should be exactly where every target offered is judged rightly. -/
theorem redirect_iff (k : Kiwi) (password : Option (List UInt8)) (websocket : Bool) (buf : List UInt8) :
    Safe k password websocket buf ↔ ∀ target, Offered k websocket buf target → Apart k password target := by
  obtain ⟨r, hr, hspec⟩ := response_spec buf
  have hrefused : (∃ k', redirect k password websocket buf = some (false, k')) →
      (∀ target, ¬ Offered k websocket buf target) →
      (Safe k password websocket buf ↔
        ∀ target, Offered k websocket buf target → Apart k password target) := fun hno hnone =>
    ⟨fun _ target h => absurd h (hnone target), fun _ => safe_of_refused hno⟩
  cases websocket with
  | true => exact hrefused ⟨k, rfl⟩ fun _ h => absurd h.handshake (by simp)
  | false =>
      have hredirect : redirect k password false buf = redirect k password false buf := rfl
      conv at hredirect =>
        rhs
        unfold redirect
        rw [if_neg Bool.false_ne_true, hr]
      have hoffered : ∀ target, Offered k false buf target → r = .moved (some target) := fun target h =>
        Option.some.inj (hr.symm.trans h.response)
      cases r with
      | other => exact hrefused ⟨k, hredirect⟩ fun target h => absurd (hoffered target h) (by simp)
      | moved found =>
          by_cases hhops : 8 ≤ k.redirects
          · refine hrefused ⟨note k "Kiwi HTTP 307 redirect chain exceeded eight hops", ?_⟩
              fun target h => absurd h.hops (Nat.not_lt.mpr hhops)
            rw [hredirect]
            simp [hhops]
          simp only [Option.map_some, if_neg hhops] at hredirect
          cases found with
          | none => exact hrefused ⟨k, hredirect⟩ fun target h => absurd (hoffered target h) (by simp)
          | some target =>
              obtain ⟨hmoved, hlength⟩ := hspec target rfl
              have hfollow : ((follow k password target).1 = true →
                  Followed k (follow k password target).2 password buf) ↔
                    (Printable target → Apart k password target) := follow_iff hmoved hlength
              constructor
              · rintro ⟨ok, k', hk, hok⟩ x hx
                obtain rfl : target = x := by simpa using hoffered x hx
                obtain hout : follow k password target = (ok, k') := Option.some.inj (hredirect.symm.trans hk)
                rw [hout] at hfollow
                exact hfollow.mp hok hx.printable
              · intro happart
                refine ⟨_, _, hredirect, hfollow.mpr fun hprint => ?_⟩
                exact happart target ⟨rfl, hr, Nat.lt_of_not_le hhops, hprint⟩

end Kiwi

end RustyRig
