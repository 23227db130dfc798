/-
Who is behind a verified connection.

A server signs a proof only over the nonce that it drew for a connection, the challenge that it
received there, that connection's binding and its own role, and always in its own name.  The
canonical text tells all of this apart, so whoever has a proof accepted that verifies under a
server's key has a proof that this server signed: over the acceptor's own nonce, for the same
TLS connection, from its other end.  What else was sent, repeated, reflected or carried over
from other connections does not matter.
-/
import RustyRig.Lib.Along
import RustyRig.Proofs.Base64.Codec
import RustyRig.Proofs.Identity.Numeral
import RustyRig.Rrserver.MeshAuth

namespace RustyRig

namespace MeshAuth

open Identity (canonical signatureKey canonical_inj)

variable {ι γ : Type*} [DecidableEq ι] [DecidableEq γ] {net : Network ι γ} {w : World ι γ}
  {i : ι} {c : γ} {auth : Auth} {d : Dict} {a : Answers}

/-! ### Texts -/

theorem encode_inj {b b' : List UInt8} (h : encode b = encode b') : b = b' := by
  have hlist := String.ofList_injective h
  rw [← Base64.decode_encode b, hlist, Base64.decode_encode]

theorem role_inj {r r' : Bool} (h : role r = role r') : r = r' := by
  revert h
  cases r <;> cases r' <;> decide

/-- What a signed proof says. -/
theorem get_of_canonical {s : Server} {ch : Channel} {signature : String}
    (h : canonical d = canonical ((proofDict s ch auth).add signatureKey signature)) :
    d.get "identity.owner" "" = s.node ∧ d.get "nonce" "" = auth.nonce ∧
      d.get "challenge" "" = auth.challenge ∧ d.get "channel" "" = encode ch.binding ∧
      d.get "role" "" = role ch.outbound := by
  have hkeys := canonical_inj.mp h
  have hget : ∀ k, k ≠ signatureKey → d.get k "" =
      ((proofDict s ch auth).add signatureKey signature).get k "" := by
    intro k hk
    rw [Dict.get, Dict.get, hkeys k hk]
  refine ⟨?_, ?_, ?_, ?_, ?_⟩
  all_goals rw [hget _ (by decide)]
  all_goals simp [Dict.get, proofDict, signatureKey]

/-! ### One message -/

/-- What a server signs on a message is the proof of that connection. -/
theorem receive_signed (verify : List UInt8 → String → List UInt8 → Bool) (s : Server)
    (ch : Channel) (auth : Auth) (m : Wire) (a : Answers) (d : Dict)
    (h : (receive verify s ch auth m a).2.2 = some d) :
    ∃ challenge signature, d =
      (proofDict s ch { auth with challenge := challenge, challenged := true }).add
        signatureKey signature := by
  unfold receive at h
  split at h
  · exact nomatch h
  cases hdict : m.dict with
  | none => simp [hdict] at h
  | some e =>
      simp only [hdict] at h
      split at h
      · unfold proof at h
        split at h
        · exact nomatch h
        cases hsign : a.signature with
        | none => simp [hsign] at h
        | some signature =>
            simp only [hsign, Option.some.injEq] at h
            exact ⟨e.get "nonce" "", signature, h.symm⟩
      split at h
      · split at h <;> exact nomatch h
      · exact nomatch h

/-- A message leaves a session its nonce, and verifies it on a valid proof only. -/
theorem receive_auth (verify : List UInt8 → String → List UInt8 → Bool) (s : Server)
    (ch : Channel) (m : Wire) (a : Answers) (hfresh : auth.verified = false) :
    (receive verify s ch auth m a).2.1.nonce = auth.nonce ∧
      ((receive verify s ch auth m a).2.1.verified = true →
        ∃ e ∈ m.dict, proofValid verify s ch auth e a = true ∧
          e.get "mesh.auth" "" = "proof-v1" ∧
          (receive verify s ch auth m a).2.1.challenge = auth.challenge ∧
          (receive verify s ch auth m a).2.1.node = e.get "identity.owner" "") := by
  have hno : ∀ {p : Prop}, auth.verified = true → p := by
    intro p habs
    rw [hfresh] at habs
    exact nomatch habs
  unfold receive
  split
  · exact ⟨rfl, hno⟩
  cases hdict : m.dict with
  | none => exact ⟨rfl, hno⟩
  | some e =>
      dsimp only
      split
      · exact ⟨rfl, hno⟩
      split
      · rename_i hproof
        simp only [Bool.and_eq_true, beq_iff_eq] at hproof
        split
        · rename_i hvalid
          exact ⟨rfl, fun _ => ⟨e, rfl, hvalid, hproof.1, rfl, rfl⟩⟩
        · exact ⟨rfl, hno⟩
      · exact ⟨rfl, hno⟩

/-- A valid proof, as far as it matters here. -/
theorem proofValid_spec {verify : List UInt8 → String → List UInt8 → Bool} {s : Server}
    {ch : Channel} (h : proofValid verify s ch auth d a = true) :
    d.get "identity.owner" "" ≠ s.node ∧ d.get "nonce" "" = auth.challenge ∧
      d.get "challenge" "" = auth.nonce ∧ d.get "role" "" = role !ch.outbound ∧
      d.get "channel" "" = encode ch.binding ∧
      (∃ pin, a.trust (d.get "identity.owner" "") (d.get "identity.public-key" "") pin = true) ∧
      verifyCatalog verify d = true := by
  simp only [proofValid, Bool.and_eq_true, bne_iff_ne, beq_iff_eq] at h
  obtain ⟨⟨⟨⟨⟨⟨⟨⟨⟨⟨⟨-, howner⟩, -⟩, -⟩, -⟩, -⟩, hnonce⟩, hchallenge⟩, hrole⟩, -⟩, -⟩, hpin⟩ := h
  cases hp : a.pin with
  | none => simp [hp] at hpin
  | some pin =>
      simp only [hp, Bool.and_eq_true, beq_iff_eq] at hpin
      exact ⟨howner, hnonce, hchallenge, hrole, hpin.1.1, ⟨_, hpin.1.2⟩, hpin.2⟩

theorem verifyCatalog_spec {verify : List UInt8 → String → List UInt8 → Bool}
    (h : verifyCatalog verify d = true) :
    ∃ signature, verify (Base64.decode (d.get "identity.public-key" "").toList) (canonical d)
      signature = true := by
  unfold verifyCatalog at h
  cases hkey : d.get? "identity.public-key" with
  | none => simp [hkey] at h
  | some key =>
      cases hsignature : d.get? signatureKey with
      | none => simp [hkey, hsignature] at h
      | some signature =>
          simp only [hkey, hsignature, Bool.and_eq_true] at h
          rw [Dict.get, hkey]
          exact ⟨_, h.2⟩

/-! ### A run -/

/-- What a server has signed. -/
def Record.signer : Record ι γ → Option (ι × Dict)
  | .drew .. => none
  | .proved i _ d | .signed i d => some (i, d)

/-- Signatures are not forged: what verifies under the public key of a server was signed by a
server with that key.  The keys that servers trust are keys of servers, and nothing else that a
server signs is a proof. -/
def Unforged (net : Network ι γ) (w : World ι γ) : Event ι γ → Prop
  | .message _ _ m a =>
      (∀ d ∈ m.dict, ∀ key signature, net.verify key (canonical d) signature = true →
        (∃ i, Base64.decode (net.server i).publicKey.toList = key) →
        ∃ r ∈ w.record, ∃ i e, r.signer = some (i, e) ∧
          Base64.decode (net.server i).publicKey.toList = key ∧ canonical d = canonical e) ∧
      ∀ owner pub pin, a.trust owner pub pin = true → ∃ i, (net.server i).publicKey = pub
  | .signs _ d => d.get "mesh.auth" "" ≠ "proof-v1"
  | _ => True

/-- **Mutual authentication** of a session: another server signed a proof over the session's own
nonce, over a nonce of its own that came in here as the challenge, over the same TLS connection
and with the opposite role. -/
def Authenticated (net : Network ι γ) (record : List (Record ι γ)) (i : ι) (c : γ)
    (auth : Auth) : Prop :=
  ∃ j c' d, (net.server j).node = auth.node ∧ (net.server j).node ≠ (net.server i).node ∧
    j ≠ i ∧ .proved j c' d ∈ record ∧ d.get "challenge" "" = auth.nonce ∧
    d.get "nonce" "" = auth.challenge ∧ .drew j c' auth.challenge ∈ record ∧
    d.get "channel" "" = encode (net.channel i c).binding ∧
    (net.channel j c').binding = (net.channel i c).binding ∧
    d.get "role" "" = role !(net.channel i c).outbound ∧
    (net.channel j c').outbound = !(net.channel i c).outbound

/-- What holds of the record. -/
structure Honest (net : Network ι γ) (record : List (Record ι γ)) : Prop where
  /-- A proof is about the connection it was signed for, and over a nonce drawn there. -/
  proved : ∀ j c' d, .proved j c' d ∈ record → ∃ (auth : Auth) (signature : String),
    .drew j c' auth.nonce ∈ record ∧
    d = (proofDict (net.server j) (net.channel j c') auth).add signatureKey signature
  other : ∀ j d, .signed j d ∈ record → d.get "mesh.auth" "" ≠ "proof-v1"

/-- What holds of the sessions. -/
structure Sound (net : Network ι γ) (w : World ι γ) : Prop where
  honest : Honest net w.record
  drawn : ∀ i c auth, w.auth i c = some auth → .drew i c auth.nonce ∈ w.record
  verified : ∀ i c auth, w.auth i c = some auth → auth.verified = true →
    Authenticated net w.record i c auth

omit [DecidableEq ι] [DecidableEq γ] in
theorem Authenticated.mono {record : List (Record ι γ)} (h : Authenticated net record i c auth)
    (more : List (Record ι γ)) : Authenticated net (more ++ record) i c auth := by
  obtain ⟨j, c', d, h1, h2, h3, hproved, h5, h6, hdrew, h⟩ := h
  exact ⟨j, c', d, h1, h2, h3, List.mem_append_right _ hproved, h5, h6,
    List.mem_append_right _ hdrew, h⟩

/-- One session changes. -/
theorem Sound.set (h : Sound net w) (i : ι) (c : γ) (auth : Option Auth)
    (more : List (Record ι γ)) (hhonest : Honest net (more ++ w.record))
    (hdrawn : ∀ x ∈ auth, .drew i c x.nonce ∈ more ++ w.record)
    (hverified : ∀ x ∈ auth, x.verified = true → Authenticated net (more ++ w.record) i c x) :
    Sound net (w.set i c auth more) := by
  have hcases : ∀ i' c' x, (w.set i c auth more).auth i' c' = some x →
      (i' = i ∧ c' = c ∧ x ∈ auth) ∨ w.auth i' c' = some x := by
    intro i' c' x hx
    by_cases hi : i' = i
    · subst hi
      by_cases hc : c' = c
      · subst hc
        simp only [World.set, Function.update_self] at hx
        exact .inl ⟨rfl, rfl, hx⟩
      · simp only [World.set, Function.update_self, Function.update_of_ne hc] at hx
        exact .inr hx
    · simp only [World.set, Function.update_of_ne hi] at hx
      exact .inr hx
  refine ⟨hhonest, fun i' c' x hx => ?_, fun i' c' x hx hv => ?_⟩
  · rcases hcases i' c' x hx with ⟨rfl, rfl, hmem⟩ | hold
    · exact hdrawn x hmem
    · exact List.mem_append_right _ (h.drawn i' c' x hold)
  · rcases hcases i' c' x hx with ⟨rfl, rfl, hmem⟩ | hold
    · exact hverified x hmem hv
    · exact (h.verified i' c' x hold hv).mono more

/-- A session answers a message, with a proof of its own at most. -/
theorem Sound.answer (h : Sound net w) (hauth : w.auth i c = some auth) (out : Option Auth)
    (signed : Option Dict)
    (hsigned : ∀ d ∈ signed, ∃ challenge signature, d =
      (proofDict (net.server i) (net.channel i c)
        { auth with challenge := challenge, challenged := true }).add signatureKey signature)
    (hnonce : ∀ x ∈ out, x.nonce = auth.nonce)
    (hverified : ∀ x ∈ out, x.verified = true → Authenticated net w.record i c x) :
    Sound net (w.set i c out (signed.toList.map (.proved i c))) := by
  have hdrawn := h.drawn i c auth hauth
  refine h.set i c _ _ ⟨fun j c' d hd => ?_, fun j d hd => ?_⟩ ?_ ?_
  · rcases List.mem_append.mp hd with hnew | hold
    · obtain ⟨e, he, hrec⟩ := List.mem_map.mp hnew
      obtain ⟨rfl, rfl, rfl⟩ := Record.proved.inj hrec
      obtain ⟨challenge, signature, hd⟩ := hsigned e (Option.mem_toList.mp he)
      exact ⟨{ auth with challenge := challenge, challenged := true }, signature,
        List.mem_append_right _ hdrawn, hd⟩
    · obtain ⟨b, signature, hdrew, heq⟩ := h.honest.proved j c' d hold
      exact ⟨b, signature, List.mem_append_right _ hdrew, heq⟩
  · rcases List.mem_append.mp hd with hnew | hold
    · obtain ⟨e, -, hrec⟩ := List.mem_map.mp hnew
      exact nomatch hrec
    · exact h.honest.other j d hold
  · intro x hx
    rw [hnonce x hx]
    exact List.mem_append_right _ hdrawn
  · exact fun x hx hv => (hverified x hx hv).mono _

omit [DecidableEq ι] [DecidableEq γ] in
/-- A server behind a valid proof. -/
theorem Sound.authenticated (h : Sound net w) {m : Wire}
    (hunforged : Unforged net w (.message i c m a)) (hd : d ∈ m.dict)
    (hop : d.get "mesh.auth" "" = "proof-v1")
    (hvalid : proofValid net.verify (net.server i) (net.channel i c) auth d a = true) :
    Authenticated net w.record i c { auth with node := d.get "identity.owner" "" } := by
  obtain ⟨howner, hnonce, hchallenge, hrole, hchannel, ⟨pin, htrust⟩, hverify⟩ :=
    proofValid_spec hvalid
  obtain ⟨signature, hsigned⟩ := verifyCatalog_spec hverify
  obtain ⟨k, hk⟩ := hunforged.2 _ _ _ htrust
  obtain ⟨r, hr, j, e, hsigner, -, htext⟩ :=
    hunforged.1 d hd _ _ hsigned ⟨k, by rw [hk]⟩
  cases r with
  | drew => exact nomatch hsigner
  | signed j' e' =>
      obtain ⟨rfl, rfl⟩ := Prod.mk.inj (Option.some.inj hsigner)
      have hsame : e'.get "mesh.auth" "" = d.get "mesh.auth" "" := by
        rw [Dict.get, Dict.get, canonical_inj.mp htext "mesh.auth" (by decide)]
      exact absurd (hsame.trans hop) (h.honest.other j' e' hr)
  | proved j' c' e' =>
      obtain ⟨rfl, rfl⟩ := Prod.mk.inj (Option.some.inj hsigner)
      obtain ⟨b, signature', hdrew, he⟩ := h.honest.proved j' c' e' hr
      have hsays := get_of_canonical (htext.trans (congrArg canonical he))
      have hsays' := get_of_canonical (congrArg canonical he)
      obtain ⟨hnode, hdn, hdc, hdch, hdr⟩ := hsays
      have hne : (net.server j').node ≠ (net.server i).node := hnode ▸ howner
      refine ⟨j', c', e', hnode.symm, hne, fun hij => hne (by rw [hij]), hr, ?_, ?_, ?_, ?_, ?_,
        ?_, ?_⟩
      · rw [hsays'.2.2.1, ← hdc, hchallenge]
      · rw [hsays'.2.1, ← hdn, hnonce]
      · rw [← hnonce, hdn]
        exact hdrew
      · rw [hsays'.2.2.2.1, ← hdch, hchannel]
      · exact encode_inj (hdch.symm.trans hchannel)
      · rw [hsays'.2.2.2.2, ← hdr, hrole]
      · exact role_inj (hdr.symm.trans hrole)

/-- **One event** keeps every session sound. -/
theorem step_sound (h : Sound net w) (event : Event ι γ) (hunforged : Unforged net w event) :
    Sound net (w.step net event) := by
  cases event with
  | opened i c bytes sent =>
      refine h.set i c _ _ ?_ ?_ ?_
      · refine ⟨fun j c' d hd => ?_, fun j d hd => ?_⟩
        · obtain ⟨b, signature, hdrew, heq⟩ := h.honest.proved j c' d (by simpa using hd)
          exact ⟨b, signature, List.mem_cons_of_mem _ hdrew, heq⟩
        · exact h.honest.other j d (by simpa using hd)
      · intro x hx
        cases sent with
        | false => exact nomatch hx
        | true =>
            obtain rfl := Option.some.inj hx
            exact List.mem_cons_self
      · intro x hx hv
        cases sent with
        | false => exact nomatch hx
        | true =>
            obtain rfl := Option.some.inj hx
            exact nomatch hv
  | message i c m a =>
      cases hauth : w.auth i c with
      | none => simpa [World.step, hauth] using h
      | some auth =>
          cases hfresh : auth.verified with
          | true => simpa [World.step, hauth, hfresh] using h
          | false =>
              obtain ⟨hnonce, hverified⟩ :=
                receive_auth net.verify (net.server i) (net.channel i c) m a hfresh
              have hsigned :=
                receive_signed net.verify (net.server i) (net.channel i c) auth m a
              simp only [World.step, hauth, hfresh, Bool.false_eq_true, if_false]
              generalize receive net.verify (net.server i) (net.channel i c) auth m a = out
                at hnonce hverified hsigned ⊢
              have hmem : ∀ x ∈ (if out.1 < 0 then none else some out.2.1), x = out.2.1 := by
                intro x hx
                split at hx
                · exact nomatch hx
                · exact (Option.some.inj hx).symm
              refine h.answer hauth _ out.2.2 hsigned ?_ ?_
              · intro x hx
                rw [hmem x hx, hnonce]
              · intro x hx hv
                rw [hmem x hx] at hv ⊢
                obtain ⟨e, he, hvalid, hop, hchallenge, hnode⟩ := hverified hv
                have hproof := h.authenticated hunforged he hop hvalid
                unfold Authenticated
                rw [hnonce, hchallenge, hnode]
                exact hproof
  | closed i c =>
      exact h.set i c none [] h.honest (fun x hx => nomatch hx) (fun x hx => nomatch hx)
  | signs i d =>
      refine ⟨⟨fun j c' e he => ?_, fun j e he => ?_⟩, fun i' c' x hx => ?_, fun i' c' x hx hv => ?_⟩
      · obtain ⟨b, signature, hdrew, heq⟩ := h.honest.proved j c' e (by simpa [World.step] using he)
        exact ⟨b, signature, List.mem_cons_of_mem _ hdrew, heq⟩
      · rcases List.mem_cons.mp he with hnew | hold
        · obtain ⟨rfl, rfl⟩ := Record.signed.inj hnew
          exact hunforged
        · exact h.honest.other j e hold
      · exact List.mem_cons_of_mem _ (h.drawn i' c' x hx)
      · exact (h.verified i' c' x hx hv).mono [.signed i d]

/-- **Nobody is verified who did not prove it here.**  Whatever is sent, lost, repeated, reflected
or carried over between connections: where a session is verified, another server has signed a
proof for it. -/
theorem verified_authenticated (net : Network ι γ) (events : List (Event ι γ))
    (h : Lib.Along (World.step net) (Unforged net) World.start events) (i : ι) (c : γ)
    (auth : Auth) (hauth : (events.foldl (World.step net) World.start).auth i c = some auth)
    (hverified : auth.verified = true) :
    Authenticated net (events.foldl (World.step net) World.start).record i c auth ∧
      .drew i c auth.nonce ∈ (events.foldl (World.step net) World.start).record := by
  have hsound := h.invariant (P := Sound net)
    ⟨⟨fun _ _ _ habs => absurd habs List.not_mem_nil, fun _ _ habs => absurd habs List.not_mem_nil⟩,
      (fun _ _ _ habs => nomatch habs), (fun _ _ _ habs => nomatch habs)⟩
    fun w e hw he => step_sound hw e he
  exact ⟨hsound.verified i c auth hauth hverified, hsound.drawn i c auth hauth⟩

/-! ### One connection -/

/-- Two servers. -/
def exampleServer : Bool → Server
  | false => ⟨"example", "11111111-1111-1111-1111-111111111111", "one",
      encode (List.replicate 32 1)⟩
  | true => ⟨"example", "22222222-2222-2222-2222-222222222222", "two",
      encode (List.replicate 32 2)⟩

/-- The proof of the second one, which was called. -/
def exampleProof : Dict :=
  (proofDict (exampleServer true) ⟨false, List.replicate 32 9⟩
    ⟨encode (List.replicate 32 4), encode (List.replicate 32 3), "", "", "", true, false⟩).add
      signatureKey (encode (List.replicate 64 5))

/-- The first one has called it; that proof is the only text with a signature. -/
def exampleNet : Network Bool Unit where
  server := exampleServer
  channel i _ := ⟨!i, List.replicate 32 9⟩
  verify key text _ := key == List.replicate 32 2 && text == canonical exampleProof

def exampleAnswers : Answers where
  bound := true
  pin := some (List.replicate 32 7)
  signature := some (encode (List.replicate 64 5))
  sent := true
  trust _ pub _ := pub == (exampleServer true).publicKey

def exampleChallenge (nonce : String) : Wire where
  length := 100
  nul := false
  dict := some ((Dict.empty.add "mesh.auth" "challenge-v1").add "nonce" nonce)

/-- Both challenges and one proof are delivered. -/
def exampleRun : List (Event Bool Unit) :=
  [.opened false () ⟨List.replicate 32 3, by decide⟩ true,
    .opened true () ⟨List.replicate 32 4, by decide⟩ true,
    .message true () (exampleChallenge (encode (List.replicate 32 3))) exampleAnswers,
    .message false () (exampleChallenge (encode (List.replicate 32 4))) exampleAnswers,
    .message false () ⟨1000, false, some exampleProof⟩ exampleAnswers]

/-- A server with the key signed the text. -/
def vouched (net : Network ι γ) (record : List (Record ι γ)) (key : List UInt8) (text : String) :
    Bool :=
  record.any fun r => match r.signer with
    | none => false
    | some (i, e) => Base64.decode (net.server i).publicKey.toList == key && text == canonical e

omit [DecidableEq ι] [DecidableEq γ] in
theorem exists_of_vouched {record : List (Record ι γ)} {key : List UInt8} {text : String}
    (h : vouched net record key text = true) : ∃ r ∈ record, ∃ i e, r.signer = some (i, e) ∧
      Base64.decode (net.server i).publicKey.toList = key ∧ text = canonical e := by
  obtain ⟨r, hr, hsigner⟩ := List.any_eq_true.mp h
  refine ⟨r, hr, ?_⟩
  cases hs : r.signer with
  | none => simp [hs] at hsigner
  | some x =>
      simp only [hs, Bool.and_eq_true, beq_iff_eq] at hsigner
      exact ⟨x.1, x.2, rfl, hsigner⟩

/-- In this run the caller verifies the other end, which has proved itself. -/
theorem verified_authenticated_caller :
    ∃ auth, (exampleRun.foldl (World.step exampleNet) World.start).auth false () = some auth ∧
      auth.verified = true ∧ Authenticated exampleNet
        (exampleRun.foldl (World.step exampleNet) World.start).record false () auth := by
  have htrust : ∀ owner pub pin, exampleAnswers.trust owner pub pin = true →
      ∃ i, (exampleNet.server i).publicKey = pub :=
    fun _ pub _ h => ⟨true, (beq_iff_eq.mp h).symm⟩
  have hchallenge : ∀ (w : World Bool Unit) i nonce,
      Unforged exampleNet w (.message i () (exampleChallenge nonce) exampleAnswers) := by
    intro w i nonce
    refine ⟨fun d hd key signature hverify _ => ?_, htrust⟩
    obtain rfl := Option.some.inj hd
    simp only [exampleNet, Bool.and_eq_true, beq_iff_eq] at hverify
    have hop := canonical_inj.mp hverify.2 "mesh.auth" (by decide)
    simp [exampleProof, proofDict, signatureKey] at hop
  have h : Lib.Along (World.step exampleNet) (Unforged exampleNet) World.start exampleRun := by
    refine ⟨trivial, trivial, hchallenge _ _ _, hchallenge _ _ _, ⟨?_, htrust⟩, trivial⟩
    intro d hd key signature hverify _
    obtain rfl := Option.some.inj hd
    simp only [exampleNet, Bool.and_eq_true, beq_iff_eq] at hverify
    obtain ⟨rfl, -⟩ := hverify
    refine exists_of_vouched ?_
    decide +kernel
  have hauth : (exampleRun.foldl (World.step exampleNet) World.start).auth false () =
      some ⟨encode (List.replicate 32 3), encode (List.replicate 32 4),
        "22222222-2222-2222-2222-222222222222", "two", encode (List.replicate 32 2), true, true⟩ := by
    decide +kernel
  exact ⟨_, hauth, rfl,
    (verified_authenticated exampleNet exampleRun h false () _ hauth rfl).1⟩

end MeshAuth

end RustyRig
