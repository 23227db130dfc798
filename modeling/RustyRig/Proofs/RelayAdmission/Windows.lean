/-
What is let in, and how often.

The journal keeps a removal for fifteen minutes after its timestamp, and a removal is let in
up to five minutes after it; so whenever the same removal could come again it is still in the
journal.  Requests are not remembered, a request is bound to its time only; and a reply is bound
to its session and its signer, to an owner only where it moves a session into a room or touches
a media channel.
-/
import RustyRig.Lib.Along
import RustyRig.Proofs.Identity.Revision
import RustyRig.Rrserver.RelayAdmission

namespace RustyRig

namespace RelayAdmission

open Identity (DbCall Pins asciiStrtoll checkPin asciiStrdown)

variable {cfg : Config} {g : Gate} {j : Journal} {current : Int} {storage : Storage} {d : Dict}
  {owner : String} {pins : Pins} {pin : Option DbCall} {v : View} {r : Reply}

/-! ### The journal -/

/-- The timestamp that a removal carries. -/
def issued (d : Dict) : Int := (asciiStrtoll (d.get "identity.timestamp" "")).1

/-- A removal that was let in: whose, its nonce and its timestamp. -/
def Entry.removal : Entry → Option (String × String × Int)
  | .removed owner nonce timestamp => some (owner, nonce, timestamp)
  | _ => none

/-- The removals that were let in. -/
def removals (log : List Entry) : List (String × String × Int) := log.filterMap Entry.removal

/-- No removal was let in twice, and each is in the database for as long as it is not older than
fifteen minutes. -/
structure Remembered (cfg : Config) (g : Gate) : Prop where
  rows : ∀ owner nonce timestamp, (owner, nonce, timestamp) ∈ removals g.log →
    g.clock - 900 ≤ timestamp → ⟨cfg.domain, owner, nonce, timestamp⟩ ∈ g.journal.rows
  once : (removals g.log).Nodup

/-- The session an effect is on. -/
def Effect.client : Effect → String
  | .membership client .. | .mapped client .. | .frame client _ | .delivered client _ => client

/-- The channel of a reply is in a room of its origin, or was taken for it. -/
def OwnsChannel (v : View) (r : Reply) (m : MediaMap) : Prop :=
  v.authority m.room = some r.origin ∨
    ∃ uuid create m', v.mediaMap r.id uuid create = some m' ∧ m'.owner = r.origin ∧ m'.room = m.room

/-- Who may bring an effect about. -/
def Effect.Rightful (v : View) (r : Reply) : Effect → Prop
  | .membership _ room _ => v.authority room = some r.origin
  | .mapped _ _ m => m.owner = r.origin ∧ OwnsChannel v r m
  | .frame _ uuid => ∃ m, v.mediaMap r.id uuid false = some m ∧ m.owner = r.origin
  | .delivered _ _ => True

/-- What is known of a reply on record. -/
structure Accepted (cfg : Config) (v : View) (r : Reply) (effects : List Effect) : Prop where
  /-- Its origin signed it for this session, unless it is media. -/
  signed : r.body.get "msg.type" "" ≠ "media" → r.body.get "identity.owner" "" = r.origin ∧
    sameName (r.body.get "identity.domain" "") cfg.domain = true ∧
    r.body.get "identity.operation" "" = "relay-reply" ∧
    r.body.get "identity.session" "" = r.id ∧ cfg.verify r.body = true
  rightful : ∀ e ∈ effects, e.client = r.id ∧ e.Rightful v r

/-- What is known of the record: requests were in time, replies are accepted rightly and signed
with the pinned key. -/
structure Checked (cfg : Config) (g : Gate) : Prop where
  requests : ∀ r offset receivedAt, .executed r offset receivedAt ∈ g.log →
    inTime r offset receivedAt = true
  replies : ∀ v r effects, .accepted v r effects ∈ g.log → Accepted cfg v r effects
  pinned : cfg.sqlite = true → ∀ v r effects, .accepted v r effects ∈ g.log →
    r.body.get "msg.type" "" ≠ "media" →
    g.pins (asciiStrdown cfg.domain, r.origin) = some (r.body.get "identity.public-key" "")

/-- A record grows by something that is no reply and no request, and no pin is lost. -/
theorem Checked.grow (h : Checked cfg g) {g' : Gate} (more : List Entry)
    (hlog : g'.log = more ++ g.log)
    (hpins : ∀ scope key, g.pins scope = some key → g'.pins scope = some key)
    (hrequests : ∀ r offset receivedAt, .executed r offset receivedAt ∈ more →
      inTime r offset receivedAt = true)
    (hreplies : ∀ v r effects, .accepted v r effects ∈ more → Accepted cfg v r effects)
    (hpinned : cfg.sqlite = true → ∀ v r effects, .accepted v r effects ∈ more →
      r.body.get "msg.type" "" ≠ "media" →
      g'.pins (asciiStrdown cfg.domain, r.origin) = some (r.body.get "identity.public-key" "")) :
    Checked cfg g' := by
  refine ⟨fun r offset receivedAt hmem => ?_, fun v r effects hmem => ?_,
    fun hsqlite v r effects hmem htype => ?_⟩
  all_goals rw [hlog] at hmem; rcases List.mem_append.mp hmem with hnew | hold
  · exact hrequests r offset receivedAt hnew
  · exact h.requests r offset receivedAt hold
  · exact hreplies v r effects hnew
  · exact h.replies v r effects hold
  · exact hpinned hsqlite v r effects hnew htype
  · exact hpins _ _ (h.pinned hsqlite v r effects hold htype)

/-- Where a removal takes an entry out of the catalog, it was let in. -/
theorem removed_of_catalogRemove (api : Catalog.Api) (site : Catalog.Site) (s : Catalog.Store)
    (origin : Catalog.Origin api.uuid) (hpins : g.pins = s.ids.pins)
    (h : (Catalog.catalogRemove api site pin
      (mutationFresh ⟨true, site.domain, api.verify⟩ g.journal current storage d origin.id).1 s
        origin d).entries ≠ s.entries) :
    (g.removal ⟨true, site.domain, api.verify⟩ current storage pin origin.id d).log =
      .removed origin.id (d.get "identity.nonce" "") (issued d) :: g.log := by
  unfold Catalog.catalogRemove at h
  unfold Gate.removal removalSigned
  split at h
  · exact absurd rfl h
  rename_i hsignature
  rw [if_neg hsignature]
  split at h
  · exact absurd rfl h
  rename_i hchecks
  rw [if_neg hchecks, if_pos rfl, hpins]
  generalize checkPin pin s.ids.pins (d.get "identity.domain" "") origin.id
    (d.get "identity.public-key" "") = checked at h ⊢
  obtain ⟨_ | _, pins⟩ := checked
  · exact absurd rfl h
  · dsimp only at h ⊢
    generalize mutationFresh ⟨true, site.domain, api.verify⟩ g.journal current storage d origin.id =
      fresh at h ⊢
    obtain ⟨_ | _, journal⟩ := fresh
    · exact absurd rfl h
    · rfl

def exampleConfig : Config := ⟨true, "example", fun _ => true⟩

/-- A server that removes things. -/
def exampleOwner : String := "22222222-2222-2222-2222-222222222222"

def exampleRemoval (nonce stamp : String) : Dict :=
  ((((((Dict.empty.add "identity.owner" exampleOwner).add "identity.domain" "example").add
    "identity.public-key" "key").add "identity.operation" "catalog-remove").add
    "identity.nonce" nonce).add "identity.timestamp" stamp).add "identity.signature" "signature"

end RelayAdmission

end RustyRig
