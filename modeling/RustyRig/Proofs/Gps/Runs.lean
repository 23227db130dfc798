/-
The positions of the sources while the server runs.

`Follows` is what an event may do to a source, and `run_source` what holds of every source of a run.
Of these two come the range of every position and that nobody is left with an old one.
-/
import RustyRig.Proofs.Gps.Angle

namespace RustyRig

namespace Gps

open Lib

variable {text hemisphere : Text} {latitude : Bool} {lat lon r : Int} {nmea_valid : Text → Bool} {p q position : Live}
  {sources : List Live} {i : Nat} {time : UInt64}

/-! ### Positions in range -/

def Ranged (p : Live) : Prop := p.source.lat.natAbs ≤ 900000000 ∧ p.source.lon.natAbs ≤ 1800000000

theorem natAbs_value (w : Written) : w.value.natAbs = w.magnitude := by
  unfold Written.value
  split_ifs
  · rw [Int.natAbs_neg, Int.natAbs_natCast]
  · exact Int.natAbs_natCast _

theorem positionParse_ranged (h : positionParse text = some (lat, lon)) :
    lat.natAbs ≤ 900000000 ∧ lon.natAbs ≤ 1800000000 := by
  unfold positionParse at h
  rw [Option.bind_eq_bind, Option.bind_eq_some_iff] at h
  obtain ⟨⟨a, behind⟩, hfirst, h⟩ := h
  dsimp only at h
  by_cases hcomma : behind.head? = some ','
  · rw [if_pos hcomma, Option.bind_eq_some_iff] at h
    obtain ⟨⟨b, rest⟩, hsecond, h⟩ := h
    dsimp only at h
    by_cases hend : rest = []
    · rw [if_pos hend] at h
      obtain ⟨rfl, rfl⟩ := Prod.mk.inj (Option.some.inj h)
      obtain ⟨w, -, hw, rfl⟩ := coordinate_sound hfirst
      obtain ⟨w', -, hw', rfl⟩ := coordinate_sound hsecond
      rw [natAbs_value, natAbs_value]
      exact ⟨hw, hw'⟩
    · rw [if_neg hend] at h
      exact absurd h (Option.some_ne_none _).symm
  · rw [if_neg hcomma] at h
    exact absurd h (Option.some_ne_none _).symm

theorem receiverAngle_ranged (h : receiverAngle text hemisphere latitude = some r) :
    r.natAbs ≤ maximum latitude * 10000000 := by
  obtain ⟨degrees, w, hlax, hfacing⟩ := receiverAngle_iff.mp h
  have hlimit := hlax.limits.2
  have hnearest :
      nearest (Nat.ofDigitChars 10 degrees 0 * 600000000 + w.magnitude) 60 1 ≤ maximum latitude * 10000000 := by
    unfold nearest
    omega
  rcases hfacing with ⟨-, rfl⟩ | ⟨-, rfl⟩
  · rw [Int.natAbs_natCast]
    exact hnearest
  · rw [Int.natAbs_neg, Int.natAbs_natCast]
    exact hnearest

/-! ### What an event does to a source -/

/-- What was published is what was sent last. -/
def Remembered (p : Live) : Prop :=
  p.published = true → p.frames.head? = some { lat := p.sent_lat, lon := p.sent_lon, flags := p.sent_flags }

/-- A fixed source stays where it is; of any other the position stays in range. -/
structure Follows (p q : Live) : Prop where
  ranged : Ranged p → Ranged q
  remembered : Remembered p → Remembered q
  fixed : p.source.fixed = true → q.source = p.source

theorem Follows.refl (p : Live) : Follows p p := ⟨id, id, fun _ => rfl⟩

theorem Follows.trans {o : Live} (h : Follows p q) (h' : Follows q o) : Follows p o where
  ranged hp := h'.ranged (h.ranged hp)
  remembered hp := h'.remembered (h.remembered hp)
  fixed hfixed := by
    have hsame := h.fixed hfixed
    rw [← hsame]
    exact h'.fixed (by rw [hsame]; exact hfixed)

/-- A sentence changes nothing, or the position and its flags. -/
theorem receiverPosition_cases (p : Live) (sentence : Text) : receiverPosition p sentence = p ∨
    ∃ manual found, receiverPosition p sentence = p.take manual found ∧
      ∀ lat lon, found = some (lat, lon) → lat.natAbs ≤ 900000000 ∧ lon.natAbs ≤ 1800000000 := by
  unfold receiverPosition
  dsimp only
  split_ifs
  · exact Or.inl rfl
  · split
    · exact Or.inl rfl
    · split_ifs
      · split
        · rename_i a b ha hb
          refine Or.inr ⟨_, _, rfl, fun lat lon heq => ?_⟩
          obtain ⟨rfl, rfl⟩ := Prod.mk.inj (Option.some.inj heq)
          exact ⟨receiverAngle_ranged ha, receiverAngle_ranged hb⟩
        · exact Or.inl rfl
      · exact Or.inr ⟨_, none, rfl, fun lat lon heq => absurd heq (Option.some_ne_none _).symm⟩

/-- What a source takes of a sentence. -/
def heard (sentence : Text) (p : Live) : Live := if p.source.fixed = true then p else receiverPosition p sentence

theorem follows_heard (sentence : Text) (p : Live) : Follows p (heard sentence p) := by
  unfold heard
  by_cases hfixed : p.source.fixed = true
  · rw [if_pos hfixed]
    exact Follows.refl p
  · rw [if_neg hfixed]
    rcases receiverPosition_cases p sentence with heq | ⟨manual, found, heq, hrange⟩
    · rw [heq]
      exact Follows.refl p
    · rw [heq]
      cases found with
      | none => exact ⟨id, id, fun hfix => absurd hfix hfixed⟩
      | some found => exact ⟨fun _ => hrange found.1 found.2 rfl, id, fun hfix => absurd hfix hfixed⟩

theorem gpsInput_cases (nmea_valid : Text → Bool) (sources : List Live) (scope sentence : Text) :
    gpsInput nmea_valid sources scope sentence = sources ∨
      ∃ j, gpsInput nmea_valid sources scope sentence = sources.modify j (heard sentence) := by
  unfold gpsInput
  split
  · exact Or.inl rfl
  · split_ifs
    · exact Or.inr ⟨_, rfl⟩
    · exact Or.inl rfl

theorem follows_sendPosition (time : UInt64) (position p : Live) : Follows p (sendPosition time position p) := by
  unfold sendPosition
  split_ifs
  · exact ⟨id, fun _ _ => rfl, fun _ => rfl⟩
  · exact Follows.refl p

/-- What a poll makes of a source. -/
def polled (time : UInt64) (clock : Nat → UInt64) (sources : List Live) (i : Nat) (p : Live) : Live :=
  match Live.effective sources i with
  | none => p
  | some position => if due time position p = true then sendPosition (clock i) position p else p

theorem polled_of {clock : Nat → UInt64} (h : Live.effective sources i = some position) :
    polled time clock sources i p =
      if due time position p = true then sendPosition (clock i) position p else p := by
  unfold polled
  rw [h]

theorem pollGps_at (time : UInt64) (clock : Nat → UInt64) (sources : List Live) (i : Nat) :
    (pollGps time clock sources)[i]? = (sources[i]?).map (polled time clock sources i) :=
  List.getElem?_mapIdx

theorem follows_polled (time : UInt64) (clock : Nat → UInt64) (sources : List Live) (i : Nat) (p : Live) :
    Follows p (polled time clock sources i p) := by
  unfold polled
  split
  · exact Follows.refl p
  · split_ifs
    · exact follows_sendPosition _ _ p
    · exact Follows.refl p

/-- Every source goes its own way. -/
theorem step_live (nmea_valid : Text → Bool) (sources : List Live) (e : Event) : ∃ f : Nat → Live → Live,
    (∀ i, (step nmea_valid sources e)[i]? = (sources[i]?).map (f i)) ∧ ∀ i p, Follows p (f i p) := by
  cases e with
  | input scope sentence =>
      rcases gpsInput_cases nmea_valid sources scope sentence with heq | ⟨j, heq⟩
      · refine ⟨fun _ p => p, fun i => ?_, fun i p => Follows.refl p⟩
        show (gpsInput nmea_valid sources scope sentence)[i]? = _
        rw [heq]
        exact Option.map_id'.symm
      · refine ⟨fun i p => if j = i then heard sentence p else p, fun i => ?_, fun i p => ?_⟩
        · show (gpsInput nmea_valid sources scope sentence)[i]? = _
          rw [heq, List.getElem?_modify]
          rfl
        · dsimp only
          split_ifs
          · exact follows_heard sentence p
          · exact Follows.refl p
  | poll time clock => exact ⟨_, pollGps_at time clock sources, follows_polled time clock sources⟩

theorem run_live (nmea_valid : Text → Bool) (events : List Event) (sources : List Live) : ∃ f : Nat → Live → Live,
    (∀ i, (run nmea_valid sources events)[i]? = (sources[i]?).map (f i)) ∧ ∀ i p, Follows p (f i p) := by
  induction events generalizing sources with
  | nil => exact ⟨fun _ p => p, fun i => Option.map_id'.symm, fun i p => Follows.refl p⟩
  | cons e events ih =>
      obtain ⟨f, hf, hfollows⟩ := step_live nmea_valid sources e
      obtain ⟨g, hg, hfollows'⟩ := ih (step nmea_valid sources e)
      refine ⟨fun i p => g i (f i p), fun i => ?_, fun i p => (hfollows i p).trans (hfollows' i _)⟩
      show (run nmea_valid (step nmea_valid sources e) events)[i]? = _
      rw [hg, hf, Option.map_map]
      rfl

/-! ### How the server starts -/

/-- What a source of the configuration is: it has sent nothing. -/
structure Fresh (p : Live) : Prop where
  ranged : Ranged p
  unpublished : p.published = false

theorem configureSource_fresh {position : Option Text} {ownInput : Bool} (hp : Fresh p)
    (h : configureSource p position ownInput = some q) : Fresh q := by
  unfold configureSource at h
  split at h
  · obtain rfl := Option.some.inj h
    exact ⟨hp.ranged, hp.unpublished⟩
  · obtain ⟨found, hparsed, rfl⟩ := Option.map_eq_some_iff.mp h
    exact ⟨positionParse_ranged hparsed, hp.unpublished⟩

theorem fresh_zeroed (name configAlias : Text) (channel : Bool) : Fresh (Live.zeroed name configAlias channel) :=
  ⟨⟨Nat.zero_le _, Nat.zero_le _⟩, rfl⟩

theorem addRig_fresh {radio : Setup} {grown : List Live} (hsources : ∀ p ∈ sources, Fresh p)
    (h : addRig sources radio = some grown) : ∀ p ∈ grown, Fresh p := by
  unfold addRig at h
  split_ifs at h
  obtain ⟨source, hsource, rfl⟩ := Option.map_eq_some_iff.mp h
  intro p hp
  rcases List.mem_append.mp hp with hp | hp
  · exact hsources p hp
  · obtain rfl := List.mem_singleton.mp hp
    exact configureSource_fresh (fresh_zeroed _ _ _) hsource

theorem foldlM_fresh {rigs : List Setup} (hsources : ∀ p ∈ sources, Fresh p) {all : List Live}
    (h : rigs.foldlM addRig sources = some all) : ∀ p ∈ all, Fresh p := by
  induction rigs generalizing sources with
  | nil =>
      obtain rfl := Option.some.inj h
      exact hsources
  | cons radio rigs ih =>
      rw [List.foldlM_cons, Option.bind_eq_bind, Option.bind_eq_some_iff] at h
      obtain ⟨grown, hgrown, h⟩ := h
      exact ih (addRig_fresh hsources hgrown) h

theorem gpsInit_fresh {station : Setup} {rigs : List Setup} (h : gpsInit station rigs = some sources) :
    ∀ p ∈ sources, Fresh p := by
  unfold gpsInit at h
  rw [Option.bind_eq_bind, Option.bind_eq_some_iff] at h
  obtain ⟨source, hsource, h⟩ := h
  refine foldlM_fresh (fun p hp => ?_) h
  obtain rfl := List.mem_singleton.mp hp
  exact configureSource_fresh (fresh_zeroed _ _ _) hsource

/-- What holds of every source while the server runs. -/
theorem run_source {station : Setup} {rigs : List Setup} (hinit : gpsInit station rigs = some sources)
    (events : List Event) (hp : p ∈ run nmea_valid sources events) : Ranged p ∧ Remembered p := by
  obtain ⟨f, hf, hfollows⟩ := run_live nmea_valid events sources
  obtain ⟨i, hi⟩ := List.mem_iff_getElem?.mp hp
  rw [hf] at hi
  obtain ⟨source, hsource, rfl⟩ := Option.map_eq_some_iff.mp hi
  have hfresh := gpsInit_fresh hinit source (List.mem_of_getElem? hsource)
  refine ⟨(hfollows i source).ranged hfresh.ranged, (hfollows i source).remembered fun hpublished => ?_⟩
  rw [hfresh.unpublished] at hpublished
  exact absurd hpublished Bool.false_ne_true

/-! ### What is shown, and what is sent -/

theorem effective_source (sources : List Live) (i : Nat) :
    effective (sources.map Live.source) i = (Live.effective sources i).map Live.source := by
  unfold effective Live.effective
  rw [List.getElem?_map, List.getElem?_map, Option.bind_map, Option.map_bind]
  congr 1
  funext p
  dsimp only [Function.comp_apply]
  split_ifs
  · rfl
  · rfl

theorem effective_mem (h : Live.effective sources i = some position) : position ∈ sources := by
  unfold Live.effective at h
  obtain ⟨own, hown, h⟩ := Option.bind_eq_some_iff.mp h
  split_ifs at h
  · obtain rfl := Option.some.inj h
    exact List.mem_of_getElem? hown
  · exact List.mem_of_getElem? h

theorem inventoryPosition_of (hranged : ∀ p ∈ sources, Ranged p) {scope : Text}
    (h : inventoryPosition (sources.map Live.source) scope = some text) :
    ∃ i q, find (sources.map Live.source) scope = some i ∧ Live.effective sources i = some q ∧
      (q.source.fixed = true ∨ q.source.valid = true) ∧ positionParse text = some (q.source.lat, q.source.lon) := by
  unfold inventoryPosition at h
  obtain ⟨i, hfind, h⟩ := Option.bind_eq_some_iff.mp h
  obtain ⟨position, heffective, h⟩ := Option.bind_eq_some_iff.mp h
  rw [effective_source] at heffective
  obtain ⟨q, hq, rfl⟩ := Option.map_eq_some_iff.mp heffective
  have hmem := effective_mem hq
  split_ifs at h with hhidden
  obtain rfl := Option.some.inj h
  refine ⟨i, q, hfind, hq, ?_, positionParse_coordinates (hranged q hmem).1 (hranged q hmem).2⟩
  by_cases hfixed : q.source.fixed = true
  · exact Or.inl hfixed
  · cases hvalid : q.source.valid with
    | true => exact Or.inr rfl
    | false =>
        rw [hvalid, Bool.eq_false_iff.mpr hfixed] at hhidden
        exact absurd (Bool.or_true _) hhidden

/-- However the receivers are heard and polled: a position is in range, a fixed source stays where the
configuration put it, and the position in the inventory reads back as that of the source it comes from. -/
theorem positions_hold (station : Setup) (rigs : List Setup) (hinit : gpsInit station rigs = some sources)
    (nmea_valid : Text → Bool) (events : List Event) :
    (∀ p : Live, p ∈ run nmea_valid sources events →
      p.source.lat.natAbs ≤ 900000000 ∧ p.source.lon.natAbs ≤ 1800000000) ∧
      (∀ (i : Nat) (p : Live), sources[i]? = some p → p.source.fixed = true →
        ((run nmea_valid sources events)[i]?).map Live.source = some p.source) ∧
      ∀ scope text, inventoryPosition ((run nmea_valid sources events).map Live.source) scope = some text →
        ∃ i q, find ((run nmea_valid sources events).map Live.source) scope = some i ∧
          Live.effective (run nmea_valid sources events) i = some q ∧
            (q.source.fixed = true ∨ q.source.valid = true) ∧
              positionParse text = some (q.source.lat, q.source.lon) := by
  refine ⟨fun p hp => (run_source hinit events hp).1, fun i p hp hfixed => ?_, fun scope text h => ?_⟩
  · obtain ⟨f, hf, hfollows⟩ := run_live nmea_valid events sources
    rw [hf, hp, Option.map_some, Option.map_some, (hfollows i p).fixed hfixed]
  · exact inventoryPosition_of (fun p hp => (run_source hinit events hp).1) h

/-- The station stands still, and the rig hears a receiver. -/
def exampleStation : Setup :=
  { name := [], configAlias := [], channel := true, position := some ['4', '5', ',', '-', '9'], ownInput := false }

def exampleRig : Setup :=
  { name := ['r', 'i', 'g'], configAlias := ['r', 'i', 'g'], channel := true, position := none, ownInput := false }

def exampleHeard : List Event :=
  [.poll 5 fun _ => 6, .input ['r', 'i', 'g'] "$GPGLL,4530.0,N,00900.0,W,120000,A".toList]

theorem exampleStation_holds : ∃ sources, gpsInit exampleStation [exampleRig] = some sources ∧
    ((run (fun _ => true) sources exampleHeard)[0]?).map Live.source = (sources[0]?).map Live.source :=
  ⟨_, rfl, (positions_hold exampleStation [exampleRig] rfl (fun _ => true) exampleHeard).2.1 0 _ rfl rfl⟩

theorem sent_of_not_due (hremembered : Remembered p) (h : due time position p = false) :
    p.frames.head? = some position.frame := by
  unfold due at h
  simp only [Bool.or_eq_false_iff, Bool.not_eq_false', bne_eq_false_iff_eq] at h
  obtain ⟨⟨⟨⟨hpublished, hlat⟩, hlon⟩, hflags⟩, -⟩ := h
  rw [hremembered hpublished, hlat, hlon, hflags]

/-- A poll leaves nobody with an old position: the last frame on a channel is where its source is, if it is anywhere. -/
theorem latest_sent (station : Setup) (rigs : List Setup) (i : Nat) (hinit : gpsInit station rigs = some sources)
    (nmea_valid : Text → Bool) (events : List Event) (time : UInt64) (clock : Nat → UInt64)
    (hp : (pollGps time clock (run nmea_valid sources events))[i]? = some p)
    (hposition : Live.effective (run nmea_valid sources events) i = some position) (hchannel : p.channel = true)
    (havailable : available position.source = true) : p.frames.head? = some position.frame := by
  rw [pollGps_at] at hp
  obtain ⟨before, hbefore, rfl⟩ := Option.map_eq_some_iff.mp hp
  have hremembered := (run_source hinit events (List.mem_of_getElem? hbefore)).2
  rw [polled_of hposition] at hchannel ⊢
  cases hdue : due time position before with
  | false =>
      rw [if_neg Bool.false_ne_true]
      exact sent_of_not_due hremembered hdue
  | true =>
      rw [hdue, if_pos rfl] at hchannel
      rw [if_pos rfl]
      unfold sendPosition at hchannel ⊢
      split_ifs at hchannel ⊢ with hsend
      · rfl
      · exact absurd ⟨hchannel, havailable⟩ hsend

theorem exampleRig_sent : ∃ sources p, gpsInit exampleStation [exampleRig] = some sources ∧
    (pollGps 9 (fun _ => 9) (run (fun _ => true) sources exampleHeard))[1]? = some p ∧
      p.frames.head? = some { lat := 455000000, lon := -90000000, flags := (true, false) } :=
  ⟨_, _, rfl, rfl, latest_sent exampleStation [exampleRig] 1 rfl (fun _ => true) exampleHeard 9 (fun _ => 9) rfl rfl rfl
    rfl⟩

end Gps

end RustyRig
