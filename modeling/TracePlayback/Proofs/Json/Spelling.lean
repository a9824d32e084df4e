import TracePlayback.Proofs.Json.Buffer
import TracePlayback.Proofs.Json.Integer

/-!
# Documents that spell a value

What the program writes is plain: texts, integers of 64 bits, lists and objects (`Doc.Plain`, with a
bound for how deep the containers nest). A plain document is sound, and buffering finds no fault in
it as long as the reader may enter that many containers.

A document spells a value (`Spells`) if it is plain and the value is what is read from it, buffered
or not. Lists and records spell a value if their parts do (`Spells.list`, `Fills.spells`).

* `Spells.decode_write`: the text of a document that spells a value decodes to this value.
-/
namespace TracePlayback.Json

namespace Doc

/-! ## Plain documents -/

/-- Texts and integers, in containers at most `n` deep. -/
inductive Plain : Nat → Doc → Prop
  | text (n : Nat) (s : String) : Plain n (.ofString s)
  | integer (n : Nat) (i : Int64) : Plain n (.ofInt i.toInt)
  | list {n : Nat} {items : List Doc} (h : ∀ d ∈ items, Plain n d) : Plain (n + 1) (.ofList items)
  | object {n : Nat} {members : List (String × Doc)} (h : ∀ m ∈ members, Plain n m.2) :
      Plain (n + 1) (.ofMembers members)

theorem Plain.held {n : Nat} {d : Doc} (h : Plain n d) : d.Held n := by
  induction h with
  | text n s => exact .text n s
  | integer n i => exact .integer n i
  | list _ ih => exact .list ih
  | object _ ih => exact .object ih

theorem Plain.ne_null {n : Nat} {d : Doc} (h : Plain n d) : d ≠ .null := by
  cases h <;> exact Doc.noConfusion

theorem readOption_of_ne_null {α : Type} (read : Doc → Result α) {d : Doc} (hd : d ≠ .null) :
    d.readOption read = do return some (← read d) := by
  cases d with
  | null => exact absurd rfl hd
  | _ => rfl

end Doc

/-! ## Spelling a value -/

/-- The document is plain, in containers at most `n` deep, and `a` is read from it wherever that
many containers may be entered. -/
structure Spells {α : Type} (n : Nat) (read : Reading → Doc → Result α) (d : Doc) (a : α) :
    Prop where
  plain : d.Plain n
  read : ∀ r : Reading, n ≤ r.depth → read r d = .ok a

namespace Spells

variable {α β : Type} {n : Nat} {read : Reading → Doc → Result α} {d : Doc} {a : α}

theorem decode_write (h : Spells n read d a) (hn : n ≤ 127) : decode read d.write = .ok a := by
  rw [Json.decode_write read h.plain.held.sound]
  exact h.read .start hn

theorem map (h : Spells n read d a) (f : α → β) :
    Spells n (fun r d => return f (← read r d)) d (f a) where
  plain := h.plain
  read r hr := by simp only [h.read r hr]; rfl

theorem text (n : Nat) (s : String) : Spells n (fun _ d => d.readText) (.ofString s) s where
  plain := .text n s
  read _ _ := rfl

theorem integer (n : Nat) (i : Int64) : Spells n (fun _ d => d.readInt64) (.ofInt i.toInt) i where
  plain := .integer n i
  read _ _ := Doc.readInt64_ofInt i

theorem option {read : Doc → Result α} (h : Spells n (fun _ d => read d) d a) :
    Spells n (fun _ d => d.readOption read) d (some a) where
  plain := h.plain
  read r hr := by
    rw [Doc.readOption_of_ne_null read h.plain.ne_null, h.read r hr]
    rfl

/-- A value that may be missing is read from its document, or from null. -/
theorem readOption_getD {read : Doc → Result α} {toDoc : α → Doc}
    (h : ∀ a, Spells n (fun _ d => read d) (toDoc a) a) (a? : Option α) :
    ((a?.map toDoc).getD .null).readOption read = .ok a? := by
  cases a? with
  | none => rfl
  | some a => exact (h a).option.read ⟨n, false⟩ (Nat.le_refl n)

theorem mapM {toDoc : β → Doc} {value : β → α} {bs : List β} {r : Reading}
    (h : ∀ b ∈ bs, read r (toDoc b) = .ok (value b)) :
    (bs.map toDoc).mapM (read r) = .ok (bs.map value) := by
  induction bs with
  | nil => rfl
  | cons b bs ih =>
    have hrest := ih fun b' hb' => h b' (List.mem_cons_of_mem b hb')
    rw [List.map_cons, List.mapM_cons, h b List.mem_cons_self, hrest]
    rfl

theorem list {toDoc : β → Doc} {value : β → α} {bs : List β}
    (h : ∀ b ∈ bs, Spells n read (toDoc b) (value b)) :
    Spells (n + 1) (Doc.readList read) (.ofList (bs.map toDoc)) (bs.map value) where
  plain := by
    refine .list fun d hd => ?_
    obtain ⟨b, hb, rfl⟩ := List.mem_map.mp hd
    exact (h b hb).plain
  read r hr := by
    obtain ⟨r', henter, hr'⟩ := Reading.enter_ok hr
    have hitems := mapM (r := r') fun b hb => (h b hb).read r' hr'
    rw [Doc.ofList, Doc.readList, henter, ok_bind, hitems]
    rfl

end Spells

/-! ## Records -/

/-- The members fill the record from `s` to `s'`: each is a field that is not given yet, and its
document, of containers at most `n` deep, spells the record with the field in it. -/
inductive Fills {σ α : Type} (n : Nat) (rec : Record σ α) : σ → List (String × Doc) → σ → Prop
  | nil (s : σ) : Fills n rec s [] s
  | cons {s s' s'' : σ} {name : String} {d : Doc} {members : List (String × Doc)} {f : Field σ}
      (find : rec.fields.find? (·.answers name) = some f) (fresh : f.given s = false)
      (value : Spells n (fun r d => f.read r d s) d s') (rest : Fills n rec s' members s'') :
      Fills n rec s ((name, d) :: members) s''

namespace Fills

variable {σ α : Type} {n : Nat} {rec : Record σ α} {s s' : σ} {members : List (String × Doc)}

theorem plain (h : Fills n rec s members s') : ∀ m ∈ members, m.2.Plain n := by
  induction h with
  | nil s => intro m hm; cases hm
  | cons _ _ value _ ih =>
    intro m hm
    rcases List.mem_cons.mp hm with rfl | hm
    · exact value.plain
    · exact ih m hm

theorem readMembers (h : Fills n rec s members s') {r : Reading} (hr : n ≤ r.depth) :
    rec.readMembers r s (Doc.keyed members) = .ok s' := by
  induction h with
  | nil s => rfl
  | @cons s s₁ _ name d _ _ find fresh value _ ih =>
    have hmember : rec.readMember r s name d = .ok s₁ := by
      simp only [Record.readMember, find, fresh]
      exact value.read r hr
    rw [Doc.keyed, List.map_cons, Record.readMembers, Doc.readKey_ofString, ok_bind, hmember,
      ok_bind]
    exact ih

theorem spells (h : Fills n rec rec.empty members s) {a : α} (hfinish : rec.finish s = .ok a) :
    Spells (n + 1) rec.read (.ofMembers members) a where
  plain := .object h.plain
  read r hr := by
    obtain ⟨r', henter, hr'⟩ := Reading.enter_ok hr
    have hmembers := h.readMembers hr'
    rw [Doc.keyed] at hmembers
    rw [Doc.ofMembers, Record.read, Record.readObject, henter, ok_bind, hmembers, ok_bind, hfinish]
    rfl

end Fills
end TracePlayback.Json
