/-
Publication is all or nothing.

Every step either leaves everything that requests can name as it was, or is one of four: a
directory is made, a name is deleted, a name is moved to where there is none, or an upload
whose flush has come back gets its name.  Only the last puts a file where it was not before,
and it puts there what the upload's chunks were, in their order.
-/
import RustyRig.Proofs.Files.Sound

namespace RustyRig

namespace Files

open Lib (Disk Kind Node)

variable {s s' : Shares} {t t' : Disk String UInt8} {u v : Upload} {os : Os} {client : Nat}

/-! ### What a step does -/

/-- The uploads that stay are in the hands of a worker or not, as before, and have taken
nothing. -/
structure Carried (s s' : Shares) : Prop where
  syncing : ∀ u ∈ s.uploads, ∀ v ∈ s'.uploads, v.serial = u.serial → v.syncing = u.syncing
  accepted : s'.accepted = s.accepted

theorem Carried.refl (h : Sound s) : Carried s s where
  syncing u hu v hv hserial := by rw [h.eq_of_serial hv hu hserial]
  accepted := rfl

theorem Sound.carried_of_subset (h : Sound s) (hsub : ∀ v ∈ s'.uploads, v ∈ s.uploads)
    (haccepted : s'.accepted = s.accepted) : Carried s s' where
  syncing u hu v hv hserial := by rw [h.eq_of_serial (hsub v hv) hu hserial]
  accepted := haccepted

theorem mem_release {os : Os} (hv : v ∈ (release os s u).uploads) : v ∈ s.uploads :=
  List.mem_of_mem_filter hv

theorem Sound.carried_discard (h : Sound s) (os : Os) (u : Upload) :
    Carried s (discard os s u) := by
  unfold discard
  split
  · refine ⟨fun x hx v hv hserial => ?_, rfl⟩
    obtain ⟨w, hw, rfl⟩ := List.mem_map.mp hv
    have hsame : (if w.serial = u.serial then { w with client := none } else w).serial =
        w.serial ∧ (if w.serial = u.serial then { w with client := none } else w).syncing =
        w.syncing := by
      split
      · exact ⟨rfl, rfl⟩
      · exact ⟨rfl, rfl⟩
    rw [hsame.2, h.eq_of_serial hw hx (hsame.1.symm.trans hserial)]
  · exact h.carried_of_subset (fun v hv => mem_release hv) rfl

theorem Sound.carried_left (h : Sound s) (os : Os) (client : Nat) :
    Carried s (discardJob os s client) := by
  unfold discardJob
  split
  · exact .refl h
  · exact h.carried_discard os _

/-- An upload's file gets its name. -/
structure Published (s : Shares) (e : Event) (s' : Shares) (u : Upload) (dir : Nat)
    (name : String) : Prop where
  job : u ∈ s.uploads
  /-- Its client has committed it, and the flush has come back. -/
  committed : u.syncing = true
  flushed : ∃ rest, s.flushed = (u.serial, none) :: rest
  /-- The client is connected, and may write there. -/
  permitted : ∃ os client share below, e = .complete os ⟨true, false⟩ ∧ u.client = some client ∧
    sharePath u.path = some (share, below) ∧ permission s client share true = true ∧
    resolve s os client u.path true = .ok (dir, name)
  here : dir = u.parent
  valid : validName name = true
  /-- Nothing is replaced but what the upload asked for. -/
  kept : u.overwrite = false → s.disk.look dir name = none
  look : s'.disk.look dir name = some ⟨.file, u.fd⟩
  content : s'.disk.content u.fd = bytes (s.accepted u.serial)
  contiguous : Contiguous 0 (s.accepted u.serial)
  others : ∀ d n, validName n = true → ¬ (d = dir ∧ n = name) →
    s'.disk.look d n = s.disk.look d n
  ended : ∀ v ∈ s'.uploads, v.serial ≠ u.serial

/-- What a step does to the files, and who asked for it. -/
structure Did (s : Shares) (e : Event) (s' : Shares) : Prop where
  sound : Sound s'
  /-- A file that was not there is an upload's, or has moved. -/
  created : ∀ d n ino, validName n = true → s'.disk.look d n = some ⟨.file, ino⟩ →
    s.disk.look d n ≠ some ⟨.file, ino⟩ →
    (∃ u, Published s e s' u d n ∧ u.fd = ino) ∨
      s.disk.look d n = none ∧
        ∃ d' n', validName n' = true ∧ s.disk.look d' n' = some ⟨.file, ino⟩ ∧
          s'.disk.look d' n' = none
  /-- What is in a file stays in it. -/
  content : ∀ d n node, validName n = true → s.disk.look d n = some node →
    s'.disk.content node.ino = s.disk.content node.ino
  /-- An upload that ends without being published leaves everything as it was. -/
  ended : ∀ u ∈ s.uploads, (∀ v ∈ s'.uploads, v.serial ≠ u.serial) →
    (∃ d n, Published s e s' u d n) ∨ Quiet s.disk s'.disk
  /-- Workers get an upload from its client. -/
  committed : ∀ u ∈ s.uploads, u.syncing = false → ∀ v ∈ s'.uploads, v.serial = u.serial →
    v.syncing = true → ∃ os uuid pool client r, e = .request os uuid pool client r ∧
      u.client = some client ∧ r.cmd = "commit" ∧ r.path = u.path
  /-- And so do files their bytes. -/
  taken : ∀ n, s'.accepted n = s.accepted n ∨ ∃ u ∈ s.uploads, u.serial = n ∧
    ∃ os uuid pool client r, e = .request os uuid pool client r ∧ u.client = some client ∧
      r.cmd = "chunk" ∧ r.path = u.path ∧
      s'.accepted n = s.accepted n ++ [⟨r.offset, Base64.decode r.data.toList⟩]

/-- A step after which requests see what they saw before. -/
theorem Did.quiet {e : Event} (hsound : Sound s') (hquiet : Quiet s.disk s'.disk)
    (hcarried : Carried s s') : Did s e s' where
  sound := hsound
  created d n ino hn hlook hnot := absurd ((hquiet.look d n hn).symm.trans hlook) hnot
  content := hquiet.content
  ended _ _ _ := .inr hquiet
  committed u hu hidle v hv hserial hbusy := by
    rw [hcarried.syncing u hu v hv hserial, hidle] at hbusy
    cases hbusy
  taken n := .inl (by rw [hcarried.accepted])

theorem Did.refl (h : Sound s) (e : Event) : Did s e s := .quiet h (.refl _) (.refl h)

/-- A change of the names that requests see, with the uploads as they were. -/
theorem Did.renamed {e : Event} (h : Sound s) {disk : Disk String UInt8}
    (hdisk : ∀ v ∈ s.uploads, Undisturbed s.disk disk v)
    (hcreated : ∀ d n ino, validName n = true → disk.look d n = some ⟨.file, ino⟩ →
      s.disk.look d n ≠ some ⟨.file, ino⟩ → s.disk.look d n = none ∧
        ∃ d' n', validName n' = true ∧ s.disk.look d' n' = some ⟨.file, ino⟩ ∧
          disk.look d' n' = none)
    (hcontent : ∀ d n node, validName n = true → s.disk.look d n = some node →
      disk.content node.ino = s.disk.content node.ino) : Did s e { s with disk := disk } where
  sound := h.disturbed hdisk
  created d n ino hn hlook hnot := .inr (hcreated d n ino hn hlook hnot)
  content := hcontent
  ended u hu hgone := absurd rfl (hgone u hu)
  committed u hu hidle v hv hserial hbusy := by
    rw [h.eq_of_serial hv hu hserial, hidle] at hbusy
    cases hbusy
  taken _ := .inl rfl

/-! ### Requests of an upload -/

theorem begin_did (h : Sound s) {e : Event} {uuid name : String} {r : Request} {parent : Nat}
    {write : Bool} (hresolve : resolve s os client r.path write = .ok (parent, name))
    (hname : name ≠ ".") : Did s e (begin s os uuid client r parent name).2 := by
  unfold begin
  split
  · exact .refl h e
  rename_i hjob
  split
  · exact .refl h e
  split
  · exact .refl h e
  rename_i hslots
  split
  · exact .refl h e
  dsimp only
  split
  · exact .refl h e
  · exact .refl h e
  rename_i disk _ hmake
  have htemp := temp_not_valid uuid
  split
  · refine .quiet (h.disturbed fun v hv => ?_) ((Quiet.made htemp hmake).trans (.cleaned _ htemp))
      (h.carried_of_subset (fun _ hv => hv) rfl)
    exact (h.made hmake hv).1.trans (.cleaned _ (h.made hmake hv).2)
  · have hnone := Option.not_isSome_iff_eq_none.mp hjob
    refine .quiet (h.begun hresolve hname htemp hnone (Nat.not_le.mp hslots) hmake r.overwrite)
      (.made htemp hmake) ⟨fun u hu v hv hserial => ?_, rfl⟩
    rcases List.mem_cons.mp hv with rfl | hv
    · exact absurd hserial (Nat.ne_of_gt (h.older u hu))
    · rw [h.eq_of_serial hv hu hserial]

theorem release_did (h : Sound s) (e : Event) (os : Os) (hu : u ∈ s.uploads)
    (hidle : u.syncing = false) : Did s e (release os s u) :=
  .quiet (h.released os hu hidle) (h.release_quiet os hu)
    (h.carried_of_subset (fun _ hv => mem_release hv) rfl)

theorem discard_did (h : Sound s) (e : Event) (os : Os) (hu : u ∈ s.uploads) :
    Did s e (discard os s u) :=
  .quiet (h.discarded os hu).1 (h.discarded os hu).2 (h.carried_discard os u)

theorem left_did (h : Sound s) (e : Event) (os : Os) (client : Nat) :
    Did s e (discardJob os s client) :=
  .quiet (h.left os client).1 (h.left os client).2 (h.carried_left os client)

/-- What an upload's own chunks write is not seen by requests. -/
theorem Sound.append_quiet (h : Sound s) (hu : u ∈ s.uploads) (data : List UInt8) :
    Quiet s.disk (s.disk.append u.fd data) where
  look _ _ _ := rfl
  content _ _ _ hn hnode := Function.update_of_ne (h.visible_ne hu hn hnode) _ _

theorem chunk_did (h : Sound s) {uuid : String} {pool : Pool} {r : Request}
    (hu : u ∈ s.uploads) (hclient : u.client = some client) (hidle : u.syncing = false)
    (hcmd : r.cmd = "chunk") (hpath : r.path = u.path) :
    Did s (.request os uuid pool client r) (chunk s os u r).2 := by
  unfold chunk
  dsimp only
  split
  · exact .refl h _
  rename_i hoffset
  split
  · exact release_did h _ os hu hidle
  split
  · exact release_did h _ os hu hidle
  split
  · refine .quiet (h.abandoned os hu hidle fun v hv hne => ?_)
      ((h.append_quiet hu _).trans (.cleaned _ (h.unnamed u hu)))
      (h.carried_of_subset (fun _ hv => List.mem_of_mem_filter hv) rfl)
    exact ⟨rfl, id, Function.update_of_ne (fun hfd => hne (h.eq_of_fd hv hu hfd)) _ _⟩
  · simp only [Bool.or_eq_true, decide_eq_true_eq, not_or, ne_eq, not_not] at hoffset
    have hsound := h.grown hu (c := ⟨r.offset, Base64.decode r.data.toList⟩) hoffset.2
    have hserials : ∀ v ∈ (change s u fun x =>
        { x with size := x.size + (Base64.decode r.data.toList).length }).uploads,
        ∀ x ∈ s.uploads, v.serial = x.serial → v.syncing = x.syncing := by
      intro v hv x hx hserial
      obtain ⟨w, hw, rfl⟩ := List.mem_map.mp hv
      split at hserial
      · rw [h.eq_of_serial hx hw hserial.symm]
        split
        · rfl
        · rfl
      · rw [h.eq_of_serial hx hw hserial.symm]
        split
        · rfl
        · rfl
    exact
      { sound := hsound
        created := fun d n ino _ hlook hnot => absurd hlook hnot
        content := (h.append_quiet hu _).content
        ended := fun _ _ _ => .inr (h.append_quiet hu _)
        committed := fun x hx hxidle v hv hserial hbusy => by
          rw [hserials v hv x hx hserial, hxidle] at hbusy
          cases hbusy
        taken := fun n => by
          by_cases hn : n = u.serial
          · refine .inr ⟨u, hu, hn.symm, os, uuid, pool, client, r, rfl, hclient, hcmd, hpath, ?_⟩
            rw [hn]
            exact Function.update_self _ _ _
          · exact .inl (Function.update_of_ne hn _ _) }

/-- A commit that reaches the queue. -/
theorem queue_did (h : Sound s) {uuid : String} {pool : Pool} {r : Request}
    (hu : u ∈ s.uploads) (hclient : u.client = some client) (hidle : u.syncing = false)
    (hcmd : r.cmd = "commit") (hpath : r.path = u.path) {f : Upload → Upload}
    (hf : ∀ x, Same x (f x)) (hsize : ∀ x, (f x).size = x.size)
    (hsyncing : ∀ x, (f x).syncing = true) :
    Did s (.request os uuid pool client r)
      { change s u f with queued := s.queued ++ [u.serial] } where
  sound := h.queue hu hidle hf hsize hsyncing
  created _ _ _ _ hlook hnot := absurd hlook hnot
  content _ _ _ _ _ := rfl
  ended _ _ _ := .inr (.refl _)
  committed x hx hxidle v hv hserial hbusy := by
    obtain ⟨w, hw, rfl⟩ := List.mem_map.mp hv
    by_cases hwu : w.serial = u.serial
    · rw [if_pos hwu, (hf w).serial] at hserial
      obtain rfl := h.eq_of_serial hw hx hserial
      obtain rfl := h.eq_of_serial hw hu hwu
      exact ⟨os, uuid, pool, client, r, rfl, hclient, hcmd, hpath⟩
    · rw [if_neg hwu] at hserial hbusy
      rw [h.eq_of_serial hw hx hserial, hxidle] at hbusy
      cases hbusy
  taken _ := .inl rfl

theorem commit_did (h : Sound s) {uuid name : String} {pool : Pool} {r : Request} {parent : Nat}
    (hu : u ∈ s.uploads) (hclient : u.client = some client) (hidle : u.syncing = false)
    (hcmd : r.cmd = "commit") (hpath : r.path = u.path) :
    Did s (.request os uuid pool client r) (commit s os pool u parent name).2 := by
  unfold commit
  dsimp only
  split
  · exact release_did h _ os hu hidle
  split
  · exact release_did h _ os hu hidle
  split
  · exact release_did h _ os hu hidle
  · exact queue_did h hu hclient hidle hcmd hpath
      (fun _ => ⟨rfl, rfl, rfl, rfl, rfl, rfl, .inl rfl⟩) (fun _ => rfl) fun _ => rfl
  · exact queue_did h hu hclient hidle hcmd hpath
      (fun _ => ⟨rfl, rfl, rfl, rfl, rfl, rfl, .inr rfl⟩) (fun _ => rfl) fun _ => rfl

theorem advance_did (h : Sound s) {uuid name : String} {pool : Pool} {r : Request} {parent : Nat}
    (hcmd : ["chunk", "commit", "cancel"].contains r.cmd = true) :
    Did s (.request os uuid pool client r) (advance s os pool client r parent name).2 := by
  unfold advance
  split
  · exact .refl h _
  rename_i u hjob
  obtain ⟨hu, hclient⟩ := mem_of_job hjob
  split
  · exact .refl h _
  rename_i hplace
  simp only [Bool.or_eq_true, decide_eq_true_eq, not_or, ne_eq, not_not] at hplace
  split
  · exact discard_did h _ os hu
  rename_i hcancel
  split
  · exact .refl h _
  rename_i hidle
  split
  · rename_i hchunk
    exact chunk_did h hu hclient (Bool.eq_false_iff.mpr hidle) hchunk hplace.1.1.symm
  · rename_i hchunk
    refine commit_did h hu hclient (Bool.eq_false_iff.mpr hidle) ?_ hplace.1.1.symm
    rw [List.contains_iff_mem] at hcmd
    simpa [hchunk, hcancel] using hcmd

/-! ### Other requests -/

/-- A name that requests use is no temporary name. -/
theorem Sound.unnamed_ne (h : Sound s) (hv : v ∈ s.uploads) {d : Nat} {n : String}
    (hn : validName n = true) : ¬ (v.parent = d ∧ v.temp = n) := by
  rintro ⟨-, rfl⟩
  rw [h.unnamed v hv] at hn
  exact Bool.false_ne_true hn

theorem mkdir_did (h : Sound s) (e : Event) (parent : Nat) (name : String) :
    Did s e (mkdir s os parent name).2 := by
  unfold mkdir
  split
  · exact .refl h e
  · exact .refl h e
  rename_i disk _ hmake
  obtain ⟨-, -, hcontent, hlook⟩ := Disk.make_some hmake
  refine .renamed h (fun v hv => (h.made hmake hv).1) (fun d n ino _ hnew hold => ?_)
    fun d n node _ hnode => ?_
  · rw [hlook] at hnew
    split at hnew
    · cases hnew
    · exact absurd hnew hold
  · rw [hcontent, Function.update_of_ne (Nat.ne_of_lt (Disk.look_lt hnode))]

theorem delete_did (h : Sound s) (e : Event) (parent : Nat) {name : String}
    (hname : validName name = true) : Did s e (delete s os parent name).2 := by
  unfold delete
  split
  · exact .refl h e
  · exact .refl h e
  split
  · exact .refl h e
  split
  · exact .refl h e
  · refine .renamed h (fun v hv => .erase (h.unnamed_ne hv hname)) (fun d n ino _ hnew hold => ?_)
      fun _ _ _ _ _ => rfl
    rw [Disk.look_erase] at hnew
    split at hnew
    · cases hnew
    · exact absurd hnew hold

theorem rename_did (h : Sound s) (e : Event) {r : Request} (parent : Nat) {name : String}
    (hname : validName name = true) : Did s e (rename s os client r parent name).2 := by
  unfold rename
  split
  · exact .refl h e
  · exact .refl h e
  rename_i other dest _ hresolve
  split
  · exact .refl h e
  rename_i hdest
  split
  · exact .refl h e
  split
  · exact .refl h e
  · exact .refl h e
  rename_i disk _ hmove
  rw [Bool.or_eq_true, not_or, decide_eq_true_eq] at hdest
  have hvalid : validName dest = true := by
    obtain ⟨-, -, -, -, ⟨-, hdot⟩ | ⟨-, hvalid⟩⟩ := resolve_ok hresolve
    · exact absurd hdot hdest.1
    · exact hvalid
  obtain ⟨-, hcontent, hfree, node, hnode, hlook⟩ := Disk.move_some hmove
  have hnone : s.disk.look other dest = none := by
    cases hold : s.disk.look other dest with
    | none => rfl
    | some old => exact absurd (hfree old hold).1 Bool.false_ne_true
  refine .renamed h (fun v hv => ?_) (fun d n ino _ hnew hold => ?_) fun d n x _ _ => ?_
  · have hgone : Undisturbed s.disk (s.disk.erase parent name) v :=
      .erase (h.unnamed_ne hv hname)
    have hnamed : Undisturbed (s.disk.erase parent name) disk v := by
      refine .named (h.visible_ne hv hname hnode) (h.unnamed_ne hv hvalid (d := other))
        (fun x y => ?_) (congrFun hcontent v.fd)
      rw [hlook, Disk.look_erase]
    exact hgone.trans hnamed
  · rw [hlook] at hnew
    split at hnew
    · rename_i hsame
      obtain ⟨rfl, rfl⟩ := hsame
      obtain rfl := Option.some.inj hnew
      refine ⟨hnone, parent, name, hname, hnode, ?_⟩
      rw [hlook, if_neg, if_pos ⟨rfl, rfl⟩]
      rintro ⟨rfl, rfl⟩
      rw [hnone] at hnode
      cases hnode
    · split at hnew
      · cases hnew
      · exact absurd hnew hold
  · rw [hcontent]

theorem request_did (h : Sound s) (uuid : String) (pool : Pool) (client : Nat) (r : Request) :
    Did s (.request os uuid pool client r) (request s os uuid pool client r).2 := by
  unfold request
  split
  · exact .refl h _
  split
  · exact .refl h _
  split
  · exact .refl h _
  split
  · dsimp only
    split
    · exact left_did h _ os client
    · exact .refl h _
  rename_i parent name hresolve
  dsimp only
  split
  · exact .refl h _
  split
  · exact .refl h _
  rename_i hdot
  have hname : validName name = true := by
    obtain ⟨-, -, -, -, ⟨-, hsame⟩ | ⟨-, hvalid⟩⟩ := resolve_ok hresolve
    · exact absurd hsame hdot
    · exact hvalid
  split
  · exact begin_did h hresolve hdot
  split
  · rename_i hcmd
    exact advance_did h hcmd
  split
  · exact mkdir_did h _ parent name
  split
  · exact delete_did h _ parent hname
  split
  · exact rename_did h _ parent hname
  · exact .refl h _

/-! ### Publication -/

/-- The disk once an upload's file has got its name. -/
structure Named (t t' : Disk String UInt8) (u : Upload) (name : String) : Prop where
  content : t'.content = t.content
  kept : u.overwrite = false → t.look u.parent name = none
  target : t'.look u.parent name = some ⟨.file, u.fd⟩
  /-- The temporary name is there still, or is not. -/
  temp : ∀ x y, ¬ (x = u.parent ∧ y = name) →
    t'.look x y = t.look x y ∨ (x = u.parent ∧ y = u.temp) ∧ t'.look x y = none

theorem named_of_some (h : Sound s) (hu : u ∈ s.uploads) {name : String}
    (hnamed : (if u.overwrite then s.disk.move true u.parent u.temp u.parent name
      else s.disk.link u.parent u.temp u.parent name) = some t) : Named s.disk t u name := by
  have htemp := h.temp u hu
  split at hnamed
  · rename_i hover
    obtain ⟨-, hcontent, -, node, hnode, hlook⟩ := Disk.move_some hnamed
    obtain rfl : node = ⟨.file, u.fd⟩ := Option.some.inj (hnode.symm.trans htemp)
    refine ⟨hcontent, fun hkeep => ?_, ?_, fun x y hne => ?_⟩
    · rw [hover] at hkeep
      cases hkeep
    · rw [hlook, if_pos ⟨rfl, rfl⟩]
    · rw [hlook, if_neg hne]
      split
      · rename_i hsame
        exact .inr ⟨hsame, rfl⟩
      · exact .inl rfl
  · obtain ⟨hfree, -, hcontent, node, hnode, hlook⟩ := Disk.link_some hnamed
    obtain rfl : node = ⟨.file, u.fd⟩ := Option.some.inj (hnode.symm.trans htemp)
    refine ⟨hcontent, fun _ => hfree, ?_, fun x y hne => .inl ?_⟩
    · rw [hlook, if_pos ⟨rfl, rfl⟩]
    · rw [hlook, if_neg hne]

/-- An upload gets its name, or nothing happens. -/
theorem publish_cases (s : Shares) (os : Os) (client : Nat) (u : Upload) :
    (publish s os client u).2 = s ∨ ∃ name disk,
      resolve s os client u.path true = .ok (u.parent, name) ∧
      (if u.overwrite then s.disk.move true u.parent u.temp u.parent name
        else s.disk.link u.parent u.temp u.parent name) = some disk ∧
      (publish s os client u).2 = { s with disk := disk } := by
  unfold publish
  split
  · exact .inl rfl
  rename_i parent name hresolve
  split
  · exact .inl rfl
  rename_i hplace
  simp only [Bool.or_eq_true, decide_eq_true_eq, not_or, ne_eq, not_not] at hplace
  obtain ⟨-, rfl⟩ := hplace
  split
  · exact .inl rfl
  dsimp only
  split
  · exact .inl rfl
  · exact .inl rfl
  · rename_i disk _ hnamed
    exact .inr ⟨name, disk, hresolve, hnamed, rfl⟩

/-- The others' files are not concerned. -/
theorem Named.undisturbed {name : String} (hn : Named s.disk t u name) (h : Sound s)
    (hu : u ∈ s.uploads) (hname : validName name = true) (hv : v ∈ s.uploads) (hne : v ≠ u) :
    Undisturbed s.disk t v where
  temp := by
    rcases hn.temp v.parent v.temp (h.unnamed_ne hv hname) with hsame | ⟨hother, -⟩
    · exact hsame
    · exact absurd hother (h.temp_ne hu hv hne)
  hidden hh x y node hnode hino := by
    by_cases htarget : x = u.parent ∧ y = name
    · obtain ⟨rfl, rfl⟩ := htarget
      rw [hn.target] at hnode
      obtain rfl := Option.some.inj hnode
      exact absurd (h.eq_of_fd hu hv hino).symm hne
    · rcases hn.temp x y htarget with hsame | ⟨-, hnone⟩
      · exact hh x y node (hsame ▸ hnode) hino
      · rw [hnone] at hnode
        cases hnode
  content := congrFun hn.content v.fd

/-- An upload that was flushed ends without its name. -/
theorem finished_did (h : Sound s) (e : Event) (os : Os) {error : Option Errno}
    {rest : List (Nat × Option Errno)} (hu : u ∈ s.uploads)
    (hflushed : s.flushed = (u.serial, error) :: rest) :
    Did s e (release os { s with flushed := rest } u) :=
  .quiet (h.finished os hu hflushed (fun v _ _ => .refl _ v) s.session)
    (.cleaned _ (h.unnamed u hu))
    (h.carried_of_subset (fun _ hv => List.mem_of_mem_filter hv) rfl)

/-- An upload that was flushed ends with its name. -/
theorem published_did (h : Sound s) {f : Refresh} {rest : List (Nat × Option Errno)}
    {name : String} (hu : u ∈ s.uploads) (hclient : u.client = some client)
    (hf : f = ⟨true, false⟩) (hflushed : s.flushed = (u.serial, none) :: rest)
    (hresolve : resolve s os client u.path true = .ok (u.parent, name))
    (hn : Named s.disk t u name) :
    Did s (.complete os f) (release os { s with disk := t, flushed := rest } u) := by
  have htemp := h.unnamed u hu
  obtain ⟨share, below, hpath, hallowed, hbelow⟩ := resolve_ok hresolve
  have hname : validName name = true := by
    obtain ⟨share', below', hpath', hne⟩ := h.below u hu
    rw [hpath] at hpath'
    cases hpath'
    exact (hbelow.resolve_left fun hnil => hne hnil.1).2
  -- the temporary name is no name that requests see
  have hafter : ∀ x y, validName y = true →
      (release os { s with disk := t, flushed := rest } u).disk.look x y = t.look x y :=
    fun x y hy => (Quiet.cleaned _ htemp).look x y hy
  have hcontent : (release os { s with disk := t, flushed := rest } u).disk.content =
      s.disk.content := by
    refine Eq.trans ?_ hn.content
    unfold release
    dsimp only
    split
    · rfl
    · rfl
  have hgone : ∀ v ∈ (release os { s with disk := t, flushed := rest } u).uploads,
      v.serial ≠ u.serial := by
    intro v hv
    simpa using (List.mem_filter.mp hv).2
  have hpublished : Published s (.complete os f)
      (release os { s with disk := t, flushed := rest } u) u u.parent name :=
    { job := hu
      committed := by
        rw [h.worker u hu, hflushed]
        simp
      flushed := ⟨rest, hflushed⟩
      permitted := ⟨os, client, share, below, by rw [hf], hclient, hpath, hallowed, hresolve⟩
      here := rfl
      valid := hname
      kept := hn.kept
      look := (hafter _ _ hname).trans hn.target
      content := by
        rw [hcontent]
        exact h.written u hu
      contiguous := h.contiguous _
      others := by
        intro x y hy hne
        rw [hafter x y hy]
        rcases hn.temp x y hne with hsame | ⟨⟨-, rfl⟩, -⟩
        · exact hsame
        · rw [htemp] at hy
          cases hy
      ended := hgone }
  refine
    { sound := h.finished os hu hflushed (fun v hv hne => hn.undisturbed h hu hname hv hne) s.session
      created := fun d n ino hvalid hlook hnot => .inl ?_
      content := fun d n node _ _ => congrFun hcontent node.ino
      ended := fun v hv hend => .inl ?_
      committed := fun x hx hidle v hv hserial hbusy => ?_
      taken := fun _ => .inl rfl }
  · by_cases htarget : d = u.parent ∧ n = name
    · obtain ⟨rfl, rfl⟩ := htarget
      refine ⟨u, hpublished, ?_⟩
      rw [hpublished.look] at hlook
      exact congrArg Node.ino (Option.some.inj hlook)
    · exact absurd ((hpublished.others d n hvalid htarget).symm.trans hlook) hnot
  · by_cases hvu : v.serial = u.serial
    · rw [h.eq_of_serial hv hu hvu]
      exact ⟨u.parent, name, hpublished⟩
    · refine absurd rfl (hend v (List.mem_filter.mpr ⟨hv, ?_⟩))
      simpa using hvu
  · rw [h.eq_of_serial (List.mem_of_mem_filter hv) hx hserial, hidle] at hbusy
    cases hbusy

/-- Without the upload that was changed, nothing has. -/
theorem filter_change (uploads : List Upload) (n : Nat) (f : Upload → Upload)
    (hf : ∀ x, (f x).serial = x.serial) :
    (uploads.map fun x => if x.serial = n then f x else x).filter (·.serial != n) =
      uploads.filter (·.serial != n) := by
  induction uploads with
  | nil => rfl
  | cons x rest ih =>
      by_cases hx : x.serial = n
      · simpa [hx, hf] using ih
      · simpa [hx] using ih

/-- What is flushed has no part in what a path means. -/
theorem resolve_flushed (s : Shares) (flushed : List (Nat × Option Errno)) (os : Os)
    (client : Nat) (path : String) (write : Bool) :
    resolve { s with flushed := flushed } os client path write =
      resolve s os client path write := by
  have hdescend : ∀ depth dir below, descend { s with flushed := flushed } os depth dir below =
      descend s os depth dir below := by
    intro depth dir below
    fun_induction descend s os depth dir below <;> simp_all [descend, openDir]
  simp only [resolve, hdescend]
  rfl

/-- The client leaves while its upload is looked at. -/
theorem release_closed (h : Sound s) (os : Os) {rest : List (Nat × Option Errno)}
    (hu : u ∈ s.uploads) (hclient : u.client = some client) (hbusy : u.syncing = true) :
    release os (closed os { s with flushed := rest } client) u =
      release os { s with
        flushed := rest, session := Function.update s.session client none } u := by
  have hjob : job { s with flushed := rest } client = some u := by
    cases hfind : job { s with flushed := rest } client with
    | none =>
        have hnone := List.find?_eq_none.mp hfind u hu
        rw [hclient] at hnone
        exact absurd (beq_self_eq_true _) hnone
    | some v =>
        obtain ⟨hv, hvc⟩ := mem_of_job hfind
        rw [h.single v hv u hu client hvc hclient]
  unfold closed discardJob
  rw [hjob]
  dsimp only
  unfold discard
  rw [if_pos hbusy]
  unfold release change
  dsimp only
  rw [filter_change s.uploads u.serial (fun x => { x with client := none }) fun _ => rfl]

theorem complete_did (h : Sound s) (os : Os) (f : Refresh) :
    Did s (.complete os f) (complete os f s).2 := by
  unfold complete
  split
  · exact .refl h _
  rename_i serial error rest hflushed
  have hknown : ∃ u ∈ s.uploads, u.serial = serial := by
    refine h.known serial ?_
    rw [hflushed]
    simp
  dsimp only
  split
  · rename_i hfind
    obtain ⟨u, hu, hserial⟩ := hknown
    exact absurd (by simpa using hserial) (List.find?_eq_none.mp hfind u hu)
  rename_i u hfind
  have hu := List.mem_of_find?_eq_some hfind
  obtain rfl : u.serial = serial := by
    have hserial := List.find?_some hfind
    simpa using hserial
  split
  · exact finished_did h _ os hu hflushed
  · exact finished_did h _ os hu hflushed
  rename_i client hclient
  split
  · have hbusy : u.syncing = true := by
      rw [h.worker u hu, hflushed]
      simp
    dsimp only
    rw [release_closed h os hu hclient hbusy]
    exact .quiet (h.finished os hu hflushed (fun v _ _ => .refl _ v) _)
      (.cleaned _ (h.unnamed u hu))
      (h.carried_of_subset (fun _ hv => List.mem_of_mem_filter hv) rfl)
  rename_i hopen
  split
  · exact finished_did h _ os hu hflushed
  rename_i hallowed
  have hf : f = ⟨true, false⟩ := by
    obtain ⟨allowed, closes⟩ := f
    simp only [Bool.not_eq_true, Bool.not_eq_false'] at hopen hallowed
    rw [hopen, hallowed]
  dsimp only
  rcases publish_cases { s with flushed := rest } os client u with heq | ⟨name, disk, hres, hnamed, heq⟩
  · rw [heq]
    exact finished_did h _ os hu hflushed
  · rw [heq]
    rw [resolve_flushed] at hres
    exact published_did h hu hclient hf hflushed hres (named_of_some h hu hnamed)

/-! ### Any step of any run -/

theorem step_did (h : Sound s) (e : Event) : Did s e (step s e) := by
  cases e with
  | configured conf =>
      exact .quiet (h.elsewhere conf s.hasPriv s.session) (.refl _)
        (h.carried_of_subset (fun _ hv => hv) rfl)
  | granted hasPriv =>
      exact .quiet (h.elsewhere s.conf hasPriv s.session) (.refl _)
        (h.carried_of_subset (fun _ hv => hv) rfl)
  | session client x =>
      exact .quiet (h.elsewhere s.conf s.hasPriv _) (.refl _)
        (h.carried_of_subset (fun _ hv => hv) rfl)
  | closed os client =>
      have hleft := h.left os client
      have hcarried := h.carried_left os client
      exact .quiet (hleft.1.elsewhere _ _ _) hleft.2 ⟨hcarried.syncing, hcarried.accepted⟩
  | request os uuid pool client r => exact request_did h uuid pool client r
  | flush serial error =>
      refine .quiet (h.flushed serial error) ?_ (h.carried_of_subset (fun v hv => ?_) ?_)
      · show Quiet s.disk (flush s serial error).disk
        unfold flush
        split
        · exact .refl _
        · exact .refl _
      · unfold step flush at hv
        dsimp only at hv
        split at hv
        · exact hv
        · exact hv
      · show (flush s serial error).accepted = s.accepted
        unfold flush
        split
        · rfl
        · rfl
  | complete os f => exact complete_did h os f

theorem sound_start (conf : Conf) (hasPriv : Nat → String → Bool) (root : String → Option Nat)
    (disk : Disk String UInt8) : Sound (start conf hasPriv root disk) where
  serials := List.nodup_nil
  fds := List.nodup_nil
  older _ hu := absurd hu List.not_mem_nil
  unborn _ _ := rfl
  single _ hu := absurd hu List.not_mem_nil
  slots := Nat.zero_le _
  below _ hu := absurd hu List.not_mem_nil
  temp _ hu := absurd hu List.not_mem_nil
  unnamed _ hu := absurd hu List.not_mem_nil
  hidden _ hu := absurd hu List.not_mem_nil
  written _ hu := absurd hu List.not_mem_nil
  sized _ hu := absurd hu List.not_mem_nil
  contiguous _ := trivial
  detached _ hu := absurd hu List.not_mem_nil
  worker _ hu := absurd hu List.not_mem_nil
  waiting := List.nodup_nil
  known _ hn := absurd hn List.not_mem_nil

theorem Sound.run (h : Sound s) (events : List Event) : Sound (run s events) := by
  induction events generalizing s with
  | nil => exact h
  | cons e events ih => exact ih (step_did h e).sound

end Files

end RustyRig
