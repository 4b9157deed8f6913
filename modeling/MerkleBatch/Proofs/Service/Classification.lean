import MerkleBatch.Proofs.Batch.Admission
import MerkleBatch.Proofs.Batch.Json
import MerkleBatch.Service

/-!
# What becomes of a request for a proof

The body of a request holds no batch, or a batch that is turned away, or one that reaches the
backend. Which of the three it is decides the answer up to the backend, and nothing stops on the
way there.

* `BodyClass.Holds`: the three kinds of bodies.
* `Response.code?`: the code of an answer.
* `Service.requests_classified`: every body is of one kind, and answered as such.
-/

namespace MerkleBatch

/-! ## Bodies -/

/-- The three kinds of bodies of a request for a proof. -/
inductive BodyClass where
  | malformed
  | rejected
  | admitted
deriving DecidableEq

/-- The bytes are a text, and the text is a batch. -/
def HoldsBatch (body : ByteArray) (b : Batch) : Prop :=
  ∃ text, String.fromUTF8? body = some text ∧ Batch.ofJson? text = .ok b

namespace BodyClass

/-- The body is of this kind for a service of the given shape. -/
def Holds (s : Shape) (body : ByteArray) : BodyClass → Prop
  | malformed =>
    String.fromUTF8? body = none ∨
      ∃ text e, String.fromUTF8? body = some text ∧ Batch.ofJson? text = .error e
  | rejected =>
    ∃ b, HoldsBatch body b ∧
      ((∃ e, s.accepts b = .error e) ∨ ∃ e, b.replay s.treeDepth.toNat = .error e)
  | admitted =>
    ∃ b, HoldsBatch body b ∧ s.accepts b = .ok () ∧
      insertAll s.treeDepth.toNat b.startIndex.toNat 0 b.preRoot b.insertions = .ok b.postRoot ∧
      ∀ h ∈ b.claimedHash, h = b.inputHash

end BodyClass

theorem readBatch_eq_ok_iff {body : ByteArray} {b : Batch} :
    readBatch body = .ok b ↔ HoldsBatch body b := by
  rw [readBatch, Utf8.decode, HoldsBatch]
  cases String.fromUTF8? body with
  | none => simp
  | some text => simp

/-- A batch arrives in the bytes of its text. -/
theorem holdsBatch_toJson (b : Batch) : HoldsBatch b.toJson.toUTF8 b :=
  ⟨b.toJson, dif_pos b.toJson.isValidUTF8, b.ofJson?_toJson⟩

theorem exists_readBatch_error_iff {s : Shape} {body : ByteArray} :
    (∃ e, readBatch body = .error e) ↔ BodyClass.malformed.Holds s body := by
  rw [readBatch, Utf8.decode, BodyClass.Holds]
  cases String.fromUTF8? body with
  | none => simp
  | some text => simp

section Bodies

variable {s : Shape} {body : ByteArray}

theorem admitBody_malformed (h : BodyClass.malformed.Holds s body) :
    ∃ e, admitBody s body = .error (.malformed e) := by
  obtain ⟨e, he⟩ := exists_readBatch_error_iff.mpr h
  exact ⟨e, by rw [admitBody, he]⟩

theorem admitBody_rejected (hs : s.validate = .ok ()) (h : BodyClass.rejected.Holds s body) :
    ∃ e, e.isInputError = true ∧ admitBody s body = .error (.failed e) := by
  obtain ⟨b, hb, hrefused⟩ := h
  cases hexamine : s.examine b with
  | error f =>
    rw [admitBody, readBatch_eq_ok_iff.mpr hb]
    simp only [hexamine]
    rcases Shape.examine_refused hs hexamine with ⟨e, rfl⟩ | ⟨message, rfl⟩
    · exact ⟨_, rfl, rfl⟩
    · exact ⟨_, rfl, rfl⟩
  | ok a =>
    obtain ⟨haccepts, hreplay⟩ := Shape.examine_eq_ok_iff.mp hexamine
    rcases hrefused with ⟨e, he⟩ | ⟨e, he⟩
    · rw [haccepts] at he
      cases he
    · rw [hreplay] at he
      cases he

theorem admitBody_admitted (h : BodyClass.admitted.Holds s body) :
    ∃ b, HoldsBatch body b ∧ admitBody s body = .ok ⟨b.witness, b.inputHash⟩ := by
  obtain ⟨b, hb, haccepts, hroots, hclaimed⟩ := h
  have hreplay := Batch.replay_eq_ok_iff.mpr ⟨hroots, hclaimed, rfl⟩
  have hexamine : s.examine b = .ok ⟨b.witness, b.inputHash⟩ :=
    Shape.examine_eq_ok_iff.mpr ⟨haccepts, hreplay⟩
  refine ⟨b, hb, ?_⟩
  rw [admitBody, readBatch_eq_ok_iff.mpr hb]
  simp only [hexamine]
  rfl

/-- The kind of a body, by what the checks make of it. -/
def BodyClass.ofChecks : Except Outcome Admitted → BodyClass
  | .ok _ => admitted
  | .error (.malformed _) => malformed
  | .error _ => rejected

theorem BodyClass.Holds.ofChecks_eq (hs : s.validate = .ok ()) {c : BodyClass}
    (h : c.Holds s body) : ofChecks (admitBody s body) = c := by
  cases c with
  | malformed =>
    obtain ⟨e, he⟩ := admitBody_malformed h
    rw [he]
    rfl
  | rejected =>
    obtain ⟨e, -, he⟩ := admitBody_rejected hs h
    rw [he]
    rfl
  | admitted =>
    obtain ⟨b, -, ha⟩ := admitBody_admitted h
    rw [ha]
    rfl

theorem exists_holds (s : Shape) (body : ByteArray) : ∃ c : BodyClass, c.Holds s body := by
  cases hread : readBatch body with
  | error e => exact ⟨.malformed, exists_readBatch_error_iff.mp ⟨e, hread⟩⟩
  | ok b =>
    have hb := readBatch_eq_ok_iff.mp hread
    cases haccepts : s.accepts b with
    | error e => exact ⟨.rejected, b, hb, .inl ⟨e, haccepts⟩⟩
    | ok u =>
      cases hreplay : b.replay s.treeDepth.toNat with
      | error e => exact ⟨.rejected, b, hb, .inr ⟨e, hreplay⟩⟩
      | ok result =>
        obtain ⟨hroots, hclaimed, -⟩ := Batch.replay_eq_ok_iff.mp hreplay
        exact ⟨.admitted, b, hb, haccepts, hroots, hclaimed⟩

/-- Every body is of exactly one kind. -/
theorem existsUnique_holds (hs : s.validate = .ok ()) (body : ByteArray) :
    ∃! c : BodyClass, c.Holds s body := by
  obtain ⟨c, hc⟩ := exists_holds s body
  refine ⟨c, hc, fun c' hc' => ?_⟩
  rw [← hc.ofChecks_eq hs, hc'.ofChecks_eq hs]

end Bodies

/-! ## Answers -/

namespace Backend

variable {Folded Compressed : Type}

/-- A step that fails with an error of its own, or leads to a later one. -/
theorem of_bind_mapError {α β ε : Type} {x : Except ε α} {wrap : ε → Error}
    {next : α → Except Error β} {e : Error} (h : x.mapError wrap >>= next = .error e) :
    (∃ own, e = wrap own) ∨ ∃ value, next value = .error e := by
  cases x with
  | error own => exact .inl ⟨own, (Except.error.inj h).symm⟩
  | ok value => exact .inr ⟨value, h⟩

/-- What a proof system may fail with. -/
theorem prove_error {b : Backend Folded Compressed} {a : Admitted} {e : Error}
    (h : b.prove a = .error e) :
    (∃ shown, e = .prover .prove shown) ∨ ∃ message, e = .serialization message := by
  rcases of_bind_mapError h with hfold | ⟨folded, hrest⟩
  · exact .inl hfold
  rcases of_bind_mapError hrest with hcompress | ⟨proof, hrest⟩
  · exact .inl hcompress
  rcases of_bind_mapError hrest with ⟨shown, hencode⟩ | ⟨body, hrest⟩
  · exact .inr ⟨_, hencode⟩
  rcases of_bind_mapError hrest with hwrap | ⟨bytes, hrest⟩
  · exact .inr hwrap
  · cases hrest

/-- Whatever the proof system, an error of the library's worker is none of the input. -/
theorem attempt_failed {b : Backend Folded Compressed} {elapsed : Admitted → Duration}
    {a : Admitted} {e : Error} (h : b.attempt elapsed a = .failed e) : e.isInputError = false := by
  rw [attempt] at h
  split at h
  · rename_i error herror
    cases h
    rcases prove_error herror with ⟨shown, rfl⟩ | ⟨message, rfl⟩ <;> rfl
  · cases h

end Backend

namespace Response

/-- The code of an answer that names an error. -/
def code? (r : Response) : Option String :=
  match r.content with
  | .json (.record members) =>
    match members.lookup "code" with
    | some (.text code) => some code
    | _ => none
  | _ => none

@[simp]
theorem status_error (status : Nat) (code message : String) :
    (error status code message).status = status := rfl

@[simp]
theorem code?_error (status : Nat) (code message : String) :
    (error status code message).code? = some code := by
  simp [error, json, code?]

end Response

namespace Service

/-- The request is one for a proof and its body reaches the backend. -/
def Reaches (s : Shape) (r : Request) : Prop :=
  ∃ body, r.proofBody? = some body ∧ BodyClass.admitted.Holds s body

variable {s : Shape} {r : Request} {body : ByteArray}

theorem respond_refused {outcome : Outcome} (hr : r.proofBody? = some body)
    (h : admitBody s body = .error outcome) (backend : Admitted → Attempt) (m : Metrics) :
    respond s backend m r = settle m outcome := by
  simp only [respond, hr, handle, h]

theorem respond_admitted {a : Admitted} (hr : r.proofBody? = some body)
    (h : admitBody s body = .ok a) (backend : Admitted → Attempt) (m : Metrics) :
    respond s backend m r = settle m (.ofAttempt (backend a)) := by
  simp only [respond, hr, handle, h]

theorem respond_malformed (hr : r.proofBody? = some body) (h : BodyClass.malformed.Holds s body) :
    ∃ message, ∀ backend m, (respond s backend m r).1 = .error 400 "malformed_body" message := by
  obtain ⟨e, he⟩ := admitBody_malformed h
  refine ⟨e.display, fun backend m => ?_⟩
  rw [respond_refused hr he]
  rfl

theorem respond_rejected (hs : s.validate = .ok ()) (hr : r.proofBody? = some body)
    (h : BodyClass.rejected.Holds s body) :
    ∃ message, ∀ backend m, (respond s backend m r).1 = .error 400 "proving_error" message := by
  obtain ⟨e, hinput, he⟩ := admitBody_rejected hs h
  refine ⟨e.display, fun backend m => ?_⟩
  rw [respond_refused hr he, settle, Response.ofOutcome, Response.errorStatus, if_pos hinput]

/-- What an attempt to prove is answered with. -/
theorem settle_attempt (m : Metrics) (attempt : Attempt) :
    (∀ proof elapsed, attempt = .proven proof elapsed →
        (settle m (.ofAttempt attempt)).1 = .json 200 (.record [("proof", .text proof)])) ∧
      (∀ e, attempt = .failed e → (settle m (.ofAttempt attempt)).1 =
        .error (if e.isInputError then 400 else 500) "proving_error" e.display) ∧
      (attempt = .stopped → (settle m (.ofAttempt attempt)).1 =
        .error 500 "unexpected_error" "proving task failed") := by
  refine ⟨?_, ?_, ?_⟩
  · rintro proof elapsed rfl
    rfl
  · rintro e rfl
    rfl
  · rintro rfl
    rfl

theorem respond_reached (hr : r.proofBody? = some body) (h : BodyClass.admitted.Holds s body) :
    ∃ b, HoldsBatch body b ∧ ∀ backend m,
      respond s backend m r = settle m (.ofAttempt (backend ⟨b.witness, b.inputHash⟩)) := by
  obtain ⟨b, hb, ha⟩ := admitBody_admitted h
  exact ⟨b, hb, respond_admitted hr ha⟩

/-- Requests for anything but a proof have answers of their own. -/
theorem respondPlain_status (m : Metrics) (r : Request) :
    (respondPlain m r).status ≠ 500 ∧ (respondPlain m r).code? ≠ some "unexpected_error" := by
  rw [respondPlain]
  cases r.endpoint with
  | prover =>
    dsimp only
    split_ifs <;> exact ⟨by decide, by decide⟩
  | metrics =>
    dsimp only
    split_ifs
    · exact ⟨by decide, by decide⟩
    · simp [Response.json, Response.code?, Metrics.toValue, List.lookup_cons]
    · exact ⟨by decide, by decide⟩
    · exact ⟨by decide, by decide⟩

/-- An answer without a word of the backend is none of failure. -/
theorem respond_unreached (hs : s.validate = .ok ()) (h : ¬ Reaches s r)
    (backend : Admitted → Attempt) (m : Metrics) :
    (respond s backend m r).1.status ≠ 500 ∧
      (respond s backend m r).1.code? ≠ some "unexpected_error" := by
  cases hr : r.proofBody? with
  | none =>
    simp only [respond, hr]
    exact respondPlain_status m r
  | some body =>
    obtain ⟨c, hc, -⟩ := existsUnique_holds hs body
    cases c with
    | malformed =>
      obtain ⟨message, hmessage⟩ := respond_malformed hr hc
      rw [hmessage]
      simp
    | rejected =>
      obtain ⟨message, hmessage⟩ := respond_rejected hs hr hc
      rw [hmessage]
      simp
    | admitted => exact absurd ⟨body, hr, hc⟩ h

/-- The checks come to an end for every body. -/
theorem admitBody_ne_stopped (hs : s.validate = .ok ()) (body : ByteArray) :
    admitBody s body ≠ .error .stopped := by
  intro hstop
  obtain ⟨c, hc⟩ := exists_holds s body
  cases c with
  | malformed =>
    obtain ⟨e, he⟩ := admitBody_malformed hc
    rw [he] at hstop
    cases hstop
  | rejected =>
    obtain ⟨e, -, he⟩ := admitBody_rejected hs hc
    rw [he] at hstop
    cases hstop
  | admitted =>
    obtain ⟨b, -, ha⟩ := admitBody_admitted hc
    rw [ha] at hstop
    cases hstop

/-- Every body of a request for a proof is of one kind and answered as such, nothing stops before
the backend, and nobody is told of a failure that is not one of the backend. A batch that reaches
the backend is answered with what becomes of it there: its proof, the error, which with the
library's own worker is never one of the input, or that the computation stopped. -/
theorem requests_classified (hs : s.validate = .ok ()) (hr : r.proofBody? = some body) :
    (∃! c : BodyClass, c.Holds s body) ∧
      (BodyClass.malformed.Holds s body →
        ∃ message, ∀ backend m, (respond s backend m r).1 = .error 400 "malformed_body" message) ∧
      (BodyClass.rejected.Holds s body →
        ∃ message, ∀ backend m, (respond s backend m r).1 = .error 400 "proving_error" message) ∧
      (BodyClass.admitted.Holds s body → ∃ b, HoldsBatch body b ∧ ∀ backend m,
        let attempt := backend ⟨b.witness, b.inputHash⟩
        respond s backend m r = settle m (.ofAttempt attempt) ∧
          (∀ proof elapsed, attempt = .proven proof elapsed →
            (respond s backend m r).1 = .json 200 (.record [("proof", .text proof)])) ∧
          (∀ e, attempt = .failed e → (respond s backend m r).1 =
            .error (if e.isInputError then 400 else 500) "proving_error" e.display) ∧
          (attempt = .stopped →
            (respond s backend m r).1 = .error 500 "unexpected_error" "proving task failed")) ∧
      (∀ (Folded Compressed : Type) (b : Backend Folded Compressed) elapsed a e,
        b.attempt elapsed a = .failed e → e.isInputError = false) ∧
      admitBody s body ≠ .error .stopped ∧
      ∀ r', ¬ Reaches s r' → ∀ backend m, (respond s backend m r').1.status ≠ 500 ∧
        (respond s backend m r').1.code? ≠ some "unexpected_error" := by
  refine ⟨existsUnique_holds hs body, respond_malformed hr, respond_rejected hs hr,
    fun hadmitted => ?_, fun _ _ _ _ _ _ => Backend.attempt_failed, admitBody_ne_stopped hs body,
    fun _ => respond_unreached hs⟩
  obtain ⟨b, hb, hrespond⟩ := respond_reached hr hadmitted
  refine ⟨b, hb, fun backend m => ?_⟩
  rw [hrespond]
  exact ⟨rfl, settle_attempt m _⟩

/-- A request for a batch that has no leaves. -/
theorem proofBody?_noLeaves : ∃ r : Request,
    r.proofBody? = some (Batch.toJson ⟨none, 7, 0, 1, [], [[]]⟩).toUTF8 :=
  ⟨⟨.prover, "POST", "/prove", (Batch.toJson ⟨none, 7, 0, 1, [], [[]]⟩).toUTF8⟩, by decide +kernel⟩

/-- A batch without leaves is turned away by a service for one leaf. -/
theorem requests_classified_noLeaves :
    ∃ r : Request, r.proofBody? = some (Batch.toJson ⟨none, 7, 0, 1, [], [[]]⟩).toUTF8 ∧
      ∃ message, ∀ backend m,
        (respond ⟨1, 1⟩ backend m r).1 = .error 400 "proving_error" message := by
  obtain ⟨r, hr⟩ := proofBody?_noLeaves
  have hrejected : BodyClass.rejected.Holds ⟨1, 1⟩
      (Batch.toJson ⟨none, 7, 0, 1, [], [[]]⟩).toUTF8 :=
    ⟨_, holdsBatch_toJson _, .inl ⟨_, rfl⟩⟩
  exact ⟨r, hr, (requests_classified (by decide) hr).2.2.1 hrejected⟩

end Service

end MerkleBatch
