/-
Uploads in order.

An upload owns its temporary file.  No request can name it, since the names that requests use
are checked; so nothing but the upload's own chunks gets into it, and no name but the
temporary one leads to it until it is published.  A slot is held by the client whose upload
it is, or by a worker that has yet to flush it.
-/
import RustyRig.Rrserver.Files
import RustyRig.Proofs.Base64.Codec

namespace RustyRig

namespace Files

open Lib (Disk Kind Node)

variable {s : Shares} {t t' : Disk String UInt8} {u v : Upload} {os : Os} {client : Nat}

/-! ### What requests can name -/

theorem temp_not_valid (uuid : String) : validName (tempPrefix ++ uuid) = false := by
  have hhead : tempPrefix.toList.isPrefixOf (tempPrefix ++ uuid).toList = true := by
    rw [String.toList_append, List.isPrefixOf_iff_prefix]
    exact List.prefix_append _ _
  unfold validName
  rw [hhead]
  simp

theorem descend_valid {depth dir parent : Nat} {below : List String} {name : String}
    (h : descend s os depth dir below = .ok (parent, name)) :
    below = [] ∧ name = "." ∨ below ≠ [] ∧ validName name = true := by
  induction below generalizing depth dir with
  | nil =>
      unfold descend at h
      cases h
      exact .inl ⟨rfl, rfl⟩
  | cons part rest ih =>
      refine .inr ⟨List.cons_ne_nil _ _, ?_⟩
      cases rest with
      | nil =>
          unfold descend at h
          split at h
          · rename_i hvalid
            cases h
            exact hvalid
          · cases h
      | cons part' rest =>
          unfold descend at h
          split at h
          · cases h
          split at h
          · cases h
          · rcases ih h with ⟨habs, -⟩ | ⟨-, hvalid⟩
            · exact absurd habs (List.cons_ne_nil _ _)
            · exact hvalid

/-- What a resolved path says of the client and of the name. -/
theorem resolve_ok {path name : String} {write : Bool} {parent : Nat}
    (h : resolve s os client path write = .ok (parent, name)) :
    ∃ share below, sharePath path = some (share, below) ∧
      permission s client share write = true ∧
      (below = [] ∧ name = "." ∨ below ≠ [] ∧ validName name = true) := by
  unfold resolve at h
  split at h
  · cases h
  rename_i share below hpath
  split at h
  · cases h
  rename_i hallowed
  rw [Bool.or_eq_true, not_or, Bool.not_eq_true', Bool.not_eq_true', Bool.not_eq_false,
    Bool.not_eq_false] at hallowed
  refine ⟨share, below, hpath, hallowed.2, ?_⟩
  split at h
  · cases h
  split at h
  · cases h
  split at h
  · cases h
  · cases h
  · exact descend_valid h

/-! ### Chunks -/

/-- The bytes of some chunks. -/
def bytes (chunks : List Chunk) : List UInt8 := chunks.flatMap (·.bytes)

/-- Each chunk begins where the one before it ends. -/
def Contiguous : Nat → List Chunk → Prop
  | _, [] => True
  | n, c :: rest => c.offset = n ∧ Contiguous (n + c.bytes.length) rest

theorem contiguous_snoc {chunks : List Chunk} {n : Nat} {c : Chunk} (h : Contiguous n chunks)
    (hc : c.offset = n + (bytes chunks).length) : Contiguous n (chunks ++ [c]) := by
  induction chunks generalizing n with
  | nil => exact ⟨hc, trivial⟩
  | cons a rest ih =>
      refine ⟨h.1, ih h.2 ?_⟩
      rw [hc, bytes, List.flatMap_cons, List.length_append, ← Nat.add_assoc]
      rfl

/-! ### The invariant -/

/-- Uploads in order. -/
structure Sound (s : Shares) : Prop where
  serials : (s.uploads.map (·.serial)).Nodup
  fds : (s.uploads.map (·.fd)).Nodup
  older : ∀ u ∈ s.uploads, u.serial < s.next
  unborn : ∀ n, s.next ≤ n → s.accepted n = []
  single : ∀ u ∈ s.uploads, ∀ v ∈ s.uploads, ∀ c, u.client = some c → v.client = some c → u = v
  slots : s.uploads.length ≤ fileJobs
  /-- The target is not a share itself. -/
  below : ∀ u ∈ s.uploads, ∃ share below, sharePath u.path = some (share, below) ∧ below ≠ []
  /-- The temporary file is there, under a name that no request can use. -/
  temp : ∀ u ∈ s.uploads, s.disk.look u.parent u.temp = some ⟨.file, u.fd⟩
  unnamed : ∀ u ∈ s.uploads, validName u.temp = false
  hidden : ∀ u ∈ s.uploads, ∀ d n node, s.disk.look d n = some node → node.ino = u.fd →
    d = u.parent ∧ n = u.temp
  /-- What was taken is what is in it. -/
  written : ∀ u ∈ s.uploads, s.disk.content u.fd = bytes (s.accepted u.serial)
  sized : ∀ u ∈ s.uploads, u.size = (bytes (s.accepted u.serial)).length
  contiguous : ∀ n, Contiguous 0 (s.accepted n)
  /-- Whoever has no client any more is in the hands of a worker. -/
  detached : ∀ u ∈ s.uploads, u.client = none → u.syncing = true
  worker : ∀ u ∈ s.uploads, u.syncing = true ↔ u.serial ∈ s.queued ++ s.flushed.map Prod.fst
  waiting : (s.queued ++ s.flushed.map Prod.fst).Nodup
  known : ∀ n ∈ s.queued ++ s.flushed.map Prod.fst, ∃ u ∈ s.uploads, u.serial = n

namespace Sound

theorem eq_of_serial (h : Sound s) (hu : u ∈ s.uploads) (hv : v ∈ s.uploads)
    (hserial : u.serial = v.serial) : u = v := List.inj_on_of_nodup_map h.serials hu hv hserial

theorem eq_of_fd (h : Sound s) (hu : u ∈ s.uploads) (hv : v ∈ s.uploads) (hfd : u.fd = v.fd) :
    u = v := List.inj_on_of_nodup_map h.fds hu hv hfd

theorem fd_lt (h : Sound s) (hu : u ∈ s.uploads) : u.fd < s.disk.next :=
  Disk.look_lt (h.temp u hu)

/-- Two uploads have two temporary files. -/
theorem temp_ne (h : Sound s) (hu : u ∈ s.uploads) (hv : v ∈ s.uploads) (hne : v ≠ u) :
    ¬ (v.parent = u.parent ∧ v.temp = u.temp) := by
  rintro ⟨hparent, htemp⟩
  have hlook := h.temp v hv
  rw [hparent, htemp, h.temp u hu] at hlook
  exact hne (h.eq_of_fd hv hu (congrArg Node.ino (Option.some.inj hlook)).symm)

/-- What a request can name is no upload. -/
theorem visible_ne (h : Sound s) (hu : u ∈ s.uploads) {d : Nat} {n : String} {node : Node}
    (hn : validName n = true) (hlook : s.disk.look d n = some node) : node.ino ≠ u.fd := by
  intro hino
  obtain ⟨-, rfl⟩ := h.hidden u hu d n node hlook hino
  rw [h.unnamed u hu] at hn
  exact Bool.false_ne_true hn

end Sound

/-! ### Changes of the disk -/

/-- A change that leaves an upload's temporary file alone. -/
structure Undisturbed (t t' : Disk String UInt8) (u : Upload) : Prop where
  temp : t'.look u.parent u.temp = t.look u.parent u.temp
  hidden : (∀ d n node, t.look d n = some node → node.ino = u.fd → d = u.parent ∧ n = u.temp) →
    ∀ d n node, t'.look d n = some node → node.ino = u.fd → d = u.parent ∧ n = u.temp
  content : t'.content u.fd = t.content u.fd

theorem Undisturbed.refl (t : Disk String UInt8) (u : Upload) : Undisturbed t t u :=
  ⟨rfl, id, rfl⟩

theorem Undisturbed.trans {t'' : Disk String UInt8} (h : Undisturbed t t' u)
    (h' : Undisturbed t' t'' u) : Undisturbed t t'' u where
  temp := h'.temp.trans h.temp
  hidden hh := h'.hidden (h.hidden hh)
  content := h'.content.trans h.content

/-- A name is taken away that is not the upload's. -/
theorem Undisturbed.erase {d : Nat} {n : String} (hne : ¬ (u.parent = d ∧ u.temp = n)) :
    Undisturbed t (t.erase d n) u where
  temp := by
    rw [Disk.look_erase, if_neg hne]
  hidden hh x y node hlook hino := by
    rw [Disk.look_erase] at hlook
    split at hlook
    · cases hlook
    · exact hh x y node hlook hino
  content := rfl

/-- A node that is not the upload's file gets a name that is not the upload's. -/
theorem Undisturbed.named {d : Nat} {n : String} {node : Node} (hnode : node.ino ≠ u.fd)
    (hne : ¬ (u.parent = d ∧ u.temp = n))
    (hlook : ∀ x y, t'.look x y = if x = d ∧ y = n then some node else t.look x y)
    (hcontent : t'.content u.fd = t.content u.fd) : Undisturbed t t' u where
  temp := by
    rw [hlook, if_neg hne]
  hidden hh x y node' hlook' hino := by
    rw [hlook] at hlook'
    split at hlook'
    · obtain rfl := Option.some.inj hlook'
      exact absurd hino hnode
    · exact hh x y node' hlook' hino
  content := hcontent

/-- What requests can name stays as it is. -/
structure Quiet (t t' : Disk String UInt8) : Prop where
  look : ∀ d n, validName n = true → t'.look d n = t.look d n
  content : ∀ d n node, validName n = true → t.look d n = some node →
    t'.content node.ino = t.content node.ino

theorem Quiet.refl (t : Disk String UInt8) : Quiet t t := ⟨fun _ _ _ => rfl, fun _ _ _ _ _ => rfl⟩

theorem Quiet.trans {t'' : Disk String UInt8} (h : Quiet t t') (h' : Quiet t' t'') :
    Quiet t t'' where
  look d n hn := (h'.look d n hn).trans (h.look d n hn)
  content d n node hn hlook :=
    (h'.content d n node hn ((h.look d n hn).trans hlook)).trans (h.content d n node hn hlook)

theorem Quiet.erase {d : Nat} {n : String} (hn : validName n = false) : Quiet t (t.erase d n) where
  look x y hy := by
    rw [Disk.look_erase, if_neg]
    rintro ⟨-, rfl⟩
    rw [hn] at hy
    exact Bool.false_ne_true hy
  content _ _ _ _ _ := rfl

/-- A temporary file is taken away, unless the kernel refuses. -/
theorem Undisturbed.cleaned (c : Prop) [Decidable c] {d : Nat} {n : String}
    (hne : ¬ (u.parent = d ∧ u.temp = n)) : Undisturbed t (if c then t else t.erase d n) u := by
  split
  · exact .refl t u
  · exact .erase hne

theorem Quiet.cleaned (c : Prop) [Decidable c] {d : Nat} {n : String}
    (hn : validName n = false) : Quiet t (if c then t else t.erase d n) := by
  split
  · exact .refl t
  · exact .erase hn

/-! ### An upload ends -/

/-- One upload is taken from the list, and from what has been flushed. -/
theorem Sound.dropped (h : Sound s) (hu : u ∈ s.uploads) {disk : Disk String UInt8}
    {flushed : List (Nat × Option Errno)}
    (hdisk : ∀ v ∈ s.uploads, v ≠ u → Undisturbed s.disk disk v)
    (hmem : ∀ n, n ∈ s.queued ++ flushed.map Prod.fst ↔
      n ∈ s.queued ++ s.flushed.map Prod.fst ∧ n ≠ u.serial)
    (hwaiting : (s.queued ++ flushed.map Prod.fst).Nodup) (session : Nat → Option Session) :
    Sound { s with
      disk := disk, uploads := s.uploads.filter (·.serial != u.serial), flushed := flushed
      session := session } := by
  have hsub : (s.uploads.filter (·.serial != u.serial)).Sublist s.uploads := List.filter_sublist
  have hrest : ∀ v ∈ s.uploads.filter (·.serial != u.serial), v ∈ s.uploads ∧ v ≠ u := by
    intro v hv
    obtain ⟨hv, hne⟩ := List.mem_filter.mp hv
    refine ⟨hv, ?_⟩
    rintro rfl
    simp at hne
  exact
    { serials := h.serials.sublist (hsub.map _)
      fds := h.fds.sublist (hsub.map _)
      older := fun v hv => h.older v (hrest v hv).1
      unborn := h.unborn
      single := fun v hv w hw => h.single v (hrest v hv).1 w (hrest w hw).1
      slots := hsub.length_le.trans h.slots
      below := fun v hv => h.below v (hrest v hv).1
      temp := fun v hv => by
        obtain ⟨hv, hne⟩ := hrest v hv
        exact (hdisk v hv hne).temp.trans (h.temp v hv)
      unnamed := fun v hv => h.unnamed v (hrest v hv).1
      hidden := fun v hv => by
        obtain ⟨hv, hne⟩ := hrest v hv
        exact (hdisk v hv hne).hidden (h.hidden v hv)
      written := fun v hv => by
        obtain ⟨hv, hne⟩ := hrest v hv
        exact (hdisk v hv hne).content.trans (h.written v hv)
      sized := fun v hv => h.sized v (hrest v hv).1
      contiguous := h.contiguous
      detached := fun v hv => h.detached v (hrest v hv).1
      worker := fun v hv => by
        obtain ⟨hv, hne⟩ := hrest v hv
        rw [hmem, h.worker v hv]
        exact ⟨fun hw => ⟨hw, fun hsame => hne (h.eq_of_serial hv hu hsame)⟩, And.left⟩
      waiting := hwaiting
      known := fun n hn => by
        obtain ⟨hn, hne⟩ := (hmem n).mp hn
        obtain ⟨v, hv, rfl⟩ := h.known n hn
        exact ⟨v, List.mem_filter.mpr ⟨hv, by simpa using hne⟩, rfl⟩ }

/-- One that no worker has, on a disk that has changed meanwhile. -/
theorem Sound.abandoned (h : Sound s) (os : Os) (hu : u ∈ s.uploads) (hidle : u.syncing = false)
    (hdisk : ∀ v ∈ s.uploads, v ≠ u → Undisturbed s.disk t v) :
    Sound (release os { s with disk := t } u) := by
  have hnot : u.serial ∉ s.queued ++ s.flushed.map Prod.fst := by
    rw [← h.worker u hu, hidle]
    exact Bool.false_ne_true
  refine h.dropped hu (fun v hv hne => (hdisk v hv hne).trans (.cleaned _ (h.temp_ne hu hv hne)))
    (fun n => ?_) h.waiting s.session
  constructor
  · intro hn
    refine ⟨hn, ?_⟩
    rintro rfl
    exact hnot hn
  · exact And.left

theorem Sound.released (h : Sound s) (os : Os) (hu : u ∈ s.uploads) (hidle : u.syncing = false) :
    Sound (release os s u) := h.abandoned os hu hidle fun v _ _ => .refl _ v

theorem Sound.release_quiet (h : Sound s) (os : Os) (hu : u ∈ s.uploads) :
    Quiet s.disk (release os s u).disk := .cleaned _ (h.unnamed u hu)

/-- One that a worker has flushed. -/
theorem Sound.finished (h : Sound s) (os : Os) {error : Option Errno}
    {rest : List (Nat × Option Errno)} (hu : u ∈ s.uploads)
    (hflushed : s.flushed = (u.serial, error) :: rest)
    (hdisk : ∀ v ∈ s.uploads, v ≠ u → Undisturbed s.disk t v) (session : Nat → Option Session) :
    Sound (release os { s with disk := t, flushed := rest, session := session } u) := by
  have hperm : (s.queued ++ s.flushed.map Prod.fst).Perm
      (u.serial :: (s.queued ++ rest.map Prod.fst)) := by
    rw [hflushed, List.map_cons]
    exact List.perm_middle
  have hnodup := List.nodup_cons.mp (hperm.nodup_iff.mp h.waiting)
  refine h.dropped hu (fun v hv hne => (hdisk v hv hne).trans (.cleaned _ (h.temp_ne hu hv hne)))
    (fun n => ?_) hnodup.2 session
  rw [hperm.mem_iff, List.mem_cons]
  constructor
  · intro hn
    refine ⟨.inr hn, ?_⟩
    rintro rfl
    exact hnodup.1 hn
  · exact fun hn => hn.1.resolve_left hn.2

/-! ### An upload changes -/

/-- What never changes of an upload. -/
structure Same (x y : Upload) : Prop where
  serial : y.serial = x.serial
  parent : y.parent = x.parent
  fd : y.fd = x.fd
  path : y.path = x.path
  temp : y.temp = x.temp
  overwrite : y.overwrite = x.overwrite
  /-- Clients leave, they do not come. -/
  client : y.client = x.client ∨ y.client = none

theorem Same.refl (x : Upload) : Same x x := ⟨rfl, rfl, rfl, rfl, rfl, rfl, .inl rfl⟩

theorem Same.ite {f : Upload → Upload} (hf : ∀ x, Same x (f x)) (p : Prop) [Decidable p]
    (x : Upload) : Same x (if p then f x else x) := by
  split
  · exact hf x
  · exact .refl x

/-- The uploads change in their places, and the queue with them. -/
theorem Sound.revised (h : Sound s) {s' : Shares} {g : Upload → Upload}
    (hsame : ∀ x, Same x (g x)) (huploads : s'.uploads = s.uploads.map g)
    (hnext : s'.next = s.next) (hlook : ∀ d n, s'.disk.look d n = s.disk.look d n)
    (hwritten : ∀ x ∈ s.uploads, s'.disk.content x.fd = bytes (s'.accepted x.serial))
    (hsized : ∀ x ∈ s.uploads, (g x).size = (bytes (s'.accepted x.serial)).length)
    (hunborn : ∀ n, s.next ≤ n → s'.accepted n = [])
    (hcontiguous : ∀ n, Contiguous 0 (s'.accepted n))
    (hdetached : ∀ x ∈ s.uploads, (g x).client = none → (g x).syncing = true)
    (hworker : ∀ x ∈ s.uploads,
      (g x).syncing = true ↔ x.serial ∈ s'.queued ++ s'.flushed.map Prod.fst)
    (hwaiting : (s'.queued ++ s'.flushed.map Prod.fst).Nodup)
    (hknown : ∀ n ∈ s'.queued ++ s'.flushed.map Prod.fst, ∃ x ∈ s.uploads, x.serial = n) :
    Sound s' := by
  have hold : ∀ y ∈ s'.uploads, ∃ x ∈ s.uploads, g x = y := by
    intro y hy
    rw [huploads] at hy
    exact List.mem_map.mp hy
  have hmap {β : Type} (k : Upload → β) (hk : ∀ x, k (g x) = k x) :
      s'.uploads.map k = s.uploads.map k := by
    rw [huploads, List.map_map]
    exact List.map_congr_left fun x _ => hk x
  exact
    { serials := by
        rw [hmap _ fun x => (hsame x).serial]
        exact h.serials
      fds := by
        rw [hmap _ fun x => (hsame x).fd]
        exact h.fds
      older := by
        intro y hy
        obtain ⟨x, hx, rfl⟩ := hold y hy
        rw [(hsame x).serial, hnext]
        exact h.older x hx
      unborn := by
        rw [hnext]
        exact hunborn
      single := by
        intro y hy z hz c hyc hzc
        obtain ⟨x, hx, rfl⟩ := hold y hy
        obtain ⟨w, hw, rfl⟩ := hold z hz
        have hxc : x.client = some c := by
          rcases (hsame x).client with hkeep | hgone
          · rw [← hkeep, hyc]
          · rw [hgone] at hyc
            cases hyc
        have hwc : w.client = some c := by
          rcases (hsame w).client with hkeep | hgone
          · rw [← hkeep, hzc]
          · rw [hgone] at hzc
            cases hzc
        rw [h.single x hx w hw c hxc hwc]
      slots := by
        rw [huploads, List.length_map]
        exact h.slots
      below := by
        intro y hy
        obtain ⟨x, hx, rfl⟩ := hold y hy
        rw [(hsame x).path]
        exact h.below x hx
      temp := by
        intro y hy
        obtain ⟨x, hx, rfl⟩ := hold y hy
        rw [(hsame x).parent, (hsame x).temp, (hsame x).fd, hlook]
        exact h.temp x hx
      unnamed := by
        intro y hy
        obtain ⟨x, hx, rfl⟩ := hold y hy
        rw [(hsame x).temp]
        exact h.unnamed x hx
      hidden := by
        intro y hy d n node hnode hino
        obtain ⟨x, hx, rfl⟩ := hold y hy
        rw [(hsame x).parent, (hsame x).temp]
        rw [hlook] at hnode
        rw [(hsame x).fd] at hino
        exact h.hidden x hx d n node hnode hino
      written := by
        intro y hy
        obtain ⟨x, hx, rfl⟩ := hold y hy
        rw [(hsame x).fd, (hsame x).serial]
        exact hwritten x hx
      sized := by
        intro y hy
        obtain ⟨x, hx, rfl⟩ := hold y hy
        rw [(hsame x).serial]
        exact hsized x hx
      contiguous := hcontiguous
      detached := by
        intro y hy
        obtain ⟨x, hx, rfl⟩ := hold y hy
        exact hdetached x hx
      worker := by
        intro y hy
        obtain ⟨x, hx, rfl⟩ := hold y hy
        rw [(hsame x).serial]
        exact hworker x hx
      waiting := hwaiting
      known := by
        intro n hn
        obtain ⟨x, hx, rfl⟩ := hknown n hn
        refine ⟨g x, ?_, (hsame x).serial⟩
        rw [huploads]
        exact List.mem_map_of_mem hx }

/-- One that a worker has loses its client. -/
theorem Sound.cut (h : Sound s) (hu : u ∈ s.uploads) (hbusy : u.syncing = true) :
    Sound (change s u ({ · with client := none })) := by
  have hsame (x : Upload) :
      Same x (if x.serial = u.serial then { x with client := none } else x) :=
    .ite (f := ({ · with client := none })) (fun _ => ⟨rfl, rfl, rfl, rfl, rfl, rfl, .inr rfl⟩) _ x
  refine h.revised hsame rfl rfl (fun _ _ => rfl) h.written ?_ h.unborn h.contiguous ?_ ?_
    h.waiting h.known
  · intro x hx
    split
    · exact h.sized x hx
    · exact h.sized x hx
  · intro x hx
    split
    · rename_i hserial
      intro _
      rw [h.eq_of_serial hx hu hserial]
      exact hbusy
    · exact h.detached x hx
  · intro x hx
    split
    · exact h.worker x hx
    · exact h.worker x hx

theorem Sound.discarded (h : Sound s) (os : Os) (hu : u ∈ s.uploads) :
    Sound (discard os s u) ∧ Quiet s.disk (discard os s u).disk := by
  unfold discard
  split
  · rename_i hbusy
    exact ⟨h.cut hu hbusy, .refl _⟩
  · rename_i hidle
    exact ⟨h.released os hu (Bool.eq_false_iff.mpr hidle), h.release_quiet os hu⟩

theorem mem_of_job (hjob : job s client = some u) : u ∈ s.uploads ∧ u.client = some client := by
  refine ⟨List.mem_of_find?_eq_some hjob, ?_⟩
  have hclient := List.find?_some hjob
  simpa using hclient

theorem Sound.left (h : Sound s) (os : Os) (client : Nat) :
    Sound (discardJob os s client) ∧ Quiet s.disk (discardJob os s client).disk := by
  unfold discardJob
  split
  · exact ⟨h, .refl _⟩
  · rename_i u hjob
    exact h.discarded os (mem_of_job hjob).1

/-- Nothing here depends on the configuration, the privileges or the connections. -/
theorem Sound.elsewhere (h : Sound s) (conf : Conf) (hasPriv : Nat → String → Bool)
    (session : Nat → Option Session) :
    Sound { s with conf := conf, hasPriv := hasPriv, session := session } :=
  { h with }

/-- A change of the disk that leaves every temporary file alone. -/
theorem Sound.disturbed (h : Sound s) {disk : Disk String UInt8}
    (hdisk : ∀ v ∈ s.uploads, Undisturbed s.disk disk v) : Sound { s with disk := disk } :=
  { h with
    temp := fun v hv => (hdisk v hv).temp.trans (h.temp v hv)
    hidden := fun v hv => (hdisk v hv).hidden (h.hidden v hv)
    written := fun v hv => (hdisk v hv).content.trans (h.written v hv) }

/-! ### Requests of an upload -/

/-- A new node is nobody's temporary file, and its name is not one's either. -/
theorem Sound.made (h : Sound s) {kind : Kind} {parent : Nat} {n : String}
    {disk : Disk String UInt8} (hmake : s.disk.make kind parent n = some disk)
    (hv : v ∈ s.uploads) :
    Undisturbed s.disk disk v ∧ ¬ (v.parent = parent ∧ v.temp = n) := by
  obtain ⟨hfree, -, hcontent, hlook⟩ := Disk.make_some hmake
  have hne : ¬ (v.parent = parent ∧ v.temp = n) := by
    rintro ⟨hparent, hname⟩
    have htaken := h.temp v hv
    rw [hparent, hname, hfree] at htaken
    cases htaken
  refine ⟨.named (Nat.ne_of_gt (h.fd_lt hv)) hne hlook ?_, hne⟩
  rw [hcontent, Function.update_of_ne (Nat.ne_of_lt (h.fd_lt hv))]

/-- And nobody sees it under a temporary name. -/
theorem Quiet.made {kind : Kind} {parent : Nat} {n : String} (hn : validName n = false)
    (hmake : t.make kind parent n = some t') : Quiet t t' := by
  obtain ⟨-, -, hcontent, hlook⟩ := Disk.make_some hmake
  constructor
  · intro x y hy
    rw [hlook, if_neg]
    rintro ⟨-, rfl⟩
    rw [hn] at hy
    exact Bool.false_ne_true hy
  · intro x y node _ hnode
    rw [hcontent, Function.update_of_ne (Nat.ne_of_lt (Disk.look_lt hnode))]

/-- An upload begins. -/
theorem Sound.begun (h : Sound s) {path name temp : String} {write : Bool} {parent : Nat}
    {disk : Disk String UInt8} (hresolve : resolve s os client path write = .ok (parent, name))
    (hname : name ≠ ".") (htemp : validName temp = false) (hjob : job s client = none)
    (hslots : s.uploads.length < fileJobs) (hmake : s.disk.make .file parent temp = some disk)
    (overwrite : Bool) :
    Sound { s with
      disk := disk
      uploads := ⟨s.next, some client, parent, s.disk.next, path, temp, 0, overwrite, false⟩ ::
        s.uploads
      next := s.next + 1 } := by
  obtain ⟨-, -, hcontent, hlook⟩ := Disk.make_some hmake
  have hnew : s.next ∉ s.queued ++ s.flushed.map Prod.fst := by
    intro hmem
    obtain ⟨v, hv, hserial⟩ := h.known _ hmem
    exact absurd hserial (Nat.ne_of_lt (h.older v hv))
  have h' := h.disturbed fun v hv => (h.made hmake hv).1
  refine
    { serials := ?_
      fds := ?_
      older := ?_
      unborn := fun n hn => h.unborn n (Nat.le_of_succ_le hn)
      single := ?_
      slots := hslots
      below := ?_
      temp := ?_
      unnamed := ?_
      hidden := ?_
      written := ?_
      sized := ?_
      contiguous := h.contiguous
      detached := ?_
      worker := ?_
      waiting := h.waiting
      known := ?_ }
  · refine List.nodup_cons.mpr ⟨fun hmem => ?_, h.serials⟩
    obtain ⟨v, hv, hserial⟩ := List.mem_map.mp hmem
    exact absurd hserial (Nat.ne_of_lt (h.older v hv))
  · refine List.nodup_cons.mpr ⟨fun hmem => ?_, h.fds⟩
    obtain ⟨v, hv, hfd⟩ := List.mem_map.mp hmem
    exact absurd hfd (Nat.ne_of_lt (h.fd_lt hv))
  · intro v hv
    rcases List.mem_cons.mp hv with rfl | hv
    · exact Nat.lt_succ_self _
    · exact Nat.lt_succ_of_lt (h.older v hv)
  · intro v hv w hw c hvc hwc
    -- the client had none before
    have hnone : ∀ x ∈ s.uploads, x.client ≠ some client := by
      intro x hx hxc
      have hfound := List.find?_eq_none.mp hjob x hx
      rw [hxc] at hfound
      exact hfound (beq_self_eq_true _)
    rcases List.mem_cons.mp hv with rfl | hv
    · rcases List.mem_cons.mp hw with rfl | hw
      · rfl
      · exact absurd (hwc.trans hvc.symm) (hnone w hw)
    · rcases List.mem_cons.mp hw with rfl | hw
      · exact absurd (hvc.trans hwc.symm) (hnone v hv)
      · exact h.single v hv w hw c hvc hwc
  · intro v hv
    rcases List.mem_cons.mp hv with rfl | hv
    · obtain ⟨share, below, hpath, -, ⟨-, hdot⟩ | ⟨hbelow, -⟩⟩ := resolve_ok hresolve
      · exact absurd hdot hname
      · exact ⟨share, below, hpath, hbelow⟩
    · exact h.below v hv
  · intro v hv
    rcases List.mem_cons.mp hv with rfl | hv
    · rw [hlook, if_pos ⟨rfl, rfl⟩]
    · exact h'.temp v hv
  · intro v hv
    rcases List.mem_cons.mp hv with rfl | hv
    · exact htemp
    · exact h.unnamed v hv
  · intro v hv
    rcases List.mem_cons.mp hv with rfl | hv
    · intro d n node hnode hino
      rw [hlook] at hnode
      split at hnode
      · assumption
      · exact absurd hino (Nat.ne_of_lt (Disk.look_lt hnode))
    · exact h'.hidden v hv
  · intro v hv
    rcases List.mem_cons.mp hv with rfl | hv
    · rw [h.unborn s.next (Nat.le_refl _), hcontent, Function.update_self]
      rfl
    · exact h'.written v hv
  · intro v hv
    rcases List.mem_cons.mp hv with rfl | hv
    · rw [h.unborn s.next (Nat.le_refl _)]
      rfl
    · exact h.sized v hv
  · intro v hv
    rcases List.mem_cons.mp hv with rfl | hv
    · intro habs
      cases habs
    · exact h.detached v hv
  · intro v hv
    rcases List.mem_cons.mp hv with rfl | hv
    · exact ⟨fun habs => absurd habs Bool.false_ne_true, fun hmem => absurd hmem hnew⟩
    · exact h.worker v hv
  · intro n hn
    obtain ⟨v, hv, hserial⟩ := h.known n hn
    exact ⟨v, List.mem_cons_of_mem _ hv, hserial⟩

/-- A chunk is written. -/
theorem Sound.grown (h : Sound s) (hu : u ∈ s.uploads) {c : Chunk} (hoffset : c.offset = u.size) :
    Sound (change
      { s with
        disk := s.disk.append u.fd c.bytes
        accepted := Function.update s.accepted u.serial (s.accepted u.serial ++ [c]) }
      u fun x => { x with size := x.size + c.bytes.length }) := by
  have hsame (x : Upload) : Same x
      (if x.serial = u.serial then { x with size := x.size + c.bytes.length } else x) :=
    .ite (f := fun x => { x with size := x.size + c.bytes.length })
      (fun _ => ⟨rfl, rfl, rfl, rfl, rfl, rfl, .inl rfl⟩) _ x
  refine h.revised hsame rfl rfl (fun _ _ => rfl) ?_ ?_ ?_ ?_ ?_ ?_ h.waiting h.known
  · intro x hx
    show Function.update s.disk.content u.fd (s.disk.content u.fd ++ c.bytes) x.fd =
      bytes (Function.update s.accepted u.serial (s.accepted u.serial ++ [c]) x.serial)
    by_cases hxu : x = u
    · rw [hxu, Function.update_self, Function.update_self, h.written u hu, bytes, bytes,
        List.flatMap_append]
      simp
    · rw [Function.update_of_ne fun hfd => hxu (h.eq_of_fd hx hu hfd),
        Function.update_of_ne fun hserial => hxu (h.eq_of_serial hx hu hserial)]
      exact h.written x hx
  · intro x hx
    show _ = (bytes (Function.update s.accepted u.serial (s.accepted u.serial ++ [c])
      x.serial)).length
    split
    · rename_i hserial
      rw [hserial, Function.update_self, bytes, List.flatMap_append, List.length_append,
        h.eq_of_serial hx hu hserial, h.sized u hu]
      simp [bytes]
    · rename_i hserial
      rw [Function.update_of_ne hserial]
      exact h.sized x hx
  · intro n hn
    show Function.update s.accepted u.serial _ n = []
    rw [Function.update_of_ne (Nat.ne_of_gt (Nat.lt_of_lt_of_le (h.older u hu) hn))]
    exact h.unborn n hn
  · intro n
    show Contiguous 0 (Function.update s.accepted u.serial _ n)
    by_cases hn : n = u.serial
    · rw [hn, Function.update_self]
      refine contiguous_snoc (h.contiguous _) ?_
      rw [hoffset, h.sized u hu, Nat.zero_add]
    · rw [Function.update_of_ne hn]
      exact h.contiguous n
  · intro x hx
    split
    · exact h.detached x hx
    · exact h.detached x hx
  · intro x hx
    split
    · exact h.worker x hx
    · exact h.worker x hx

/-- An upload is handed to the workers. -/
theorem Sound.queue (h : Sound s) (hu : u ∈ s.uploads) (hidle : u.syncing = false)
    {f : Upload → Upload} (hf : ∀ x, Same x (f x)) (hsize : ∀ x, (f x).size = x.size)
    (hsyncing : ∀ x, (f x).syncing = true) :
    Sound { change s u f with queued := s.queued ++ [u.serial] } := by
  have hnot : u.serial ∉ s.queued ++ s.flushed.map Prod.fst := by
    rw [← h.worker u hu, hidle]
    exact Bool.false_ne_true
  have hperm : ((s.queued ++ [u.serial]) ++ s.flushed.map Prod.fst).Perm
      (u.serial :: (s.queued ++ s.flushed.map Prod.fst)) := by
    rw [List.append_assoc, List.singleton_append]
    exact List.perm_middle
  have hmem (n : Nat) : n ∈ (s.queued ++ [u.serial]) ++ s.flushed.map Prod.fst ↔
      n = u.serial ∨ n ∈ s.queued ++ s.flushed.map Prod.fst := by
    rw [hperm.mem_iff, List.mem_cons]
  have hsame (x : Upload) : Same x (if x.serial = u.serial then f x else x) := .ite hf _ x
  refine h.revised hsame rfl rfl (fun _ _ => rfl) h.written ?_ h.unborn h.contiguous
    ?_ ?_ ?_ ?_
  · intro x hx
    split
    · rw [hsize]
      exact h.sized x hx
    · exact h.sized x hx
  · intro x hx
    split
    · exact fun _ => hsyncing x
    · exact h.detached x hx
  · intro x hx
    refine Iff.trans ?_ (hmem x.serial).symm
    split
    · rename_i hserial
      exact ⟨fun _ => .inl hserial, fun _ => hsyncing x⟩
    · rename_i hserial
      rw [h.worker x hx]
      exact ⟨.inr, fun hor => hor.resolve_left hserial⟩
  · exact hperm.nodup_iff.mpr (List.nodup_cons.mpr ⟨hnot, h.waiting⟩)
  · intro n hn
    rcases (hmem n).mp hn with rfl | hn
    · exact ⟨u, hu, rfl⟩
    · exact h.known n hn

/-- A worker has flushed an upload. -/
theorem Sound.flushed (h : Sound s) (serial : Nat) (error : Option Errno) :
    Sound (flush s serial error) := by
  unfold flush
  split
  swap
  · exact h
  rename_i hqueued
  rw [List.contains_iff_mem] at hqueued
  have hperm : (s.queued.erase serial ++ (s.flushed ++ [(serial, error)]).map Prod.fst).Perm
      (s.queued ++ s.flushed.map Prod.fst) := by
    rw [List.map_append, List.map_singleton, ← List.append_assoc]
    refine List.perm_append_singleton _ _ |>.trans ?_
    exact ((List.perm_cons_erase hqueued).append_right _).symm
  exact
    { h with
      worker := fun u hu => (h.worker u hu).trans hperm.mem_iff.symm
      waiting := hperm.nodup_iff.mpr h.waiting
      known := fun n hn => h.known n (hperm.mem_iff.mp hn) }

end Files

end RustyRig
