import TracePlayback.Proofs.Json.Document
import TracePlayback.Proofs.Json.Integer
import TracePlayback.Proofs.Outcome

/-!
# What can be skipped and what can be buffered

Nothing is wrong with a whole document that is skipped (`Doc.Whole.skip_ok`): its containers may nest
to any depth, its numbers may be too large and its texts may hold half a surrogate pair. Buffering
asks for more, since it gives every part a value. A document is held (`Doc.Held`) if its numbers have
a value, its texts and names are texts, and its containers nest at most `n` deep.

* `Doc.Held.buffer_ok`: a reader that may enter `n` containers finds no fault when it buffers the
  document.
-/
namespace TracePlayback.Json

theorem Reading.enter_ok {n : Nat} {r : Reading} (h : n + 1 ≤ r.depth) :
    ∃ r', r.enter = .ok r' ∧ n ≤ r'.depth := by
  refine ⟨{ r with depth := r.depth - 1 }, ?_, ?_⟩
  · rw [Reading.enter, if_neg (by omega)]; rfl
  · simp only; omega

namespace Doc

theorem readKey_ofString (s : String) : (ofString s).readKey = .ok s := rfl

/-! ## Skipping -/

theorem skipItems_ok {items : List Doc} (h : ∀ d ∈ items, d.skip = .ok ()) :
    skipItems items = .ok () := by
  induction items with
  | nil => rfl
  | cons d items ih =>
    obtain ⟨hd, hitems⟩ := List.forall_mem_cons.mp h
    rw [skipItems, hd, ok_bind, ih hitems]

theorem skipMembers_ok {members : List (Quoted × Doc)} (h : ∀ m ∈ members, m.2.skip = .ok ()) :
    skipMembers (named members) = .ok () := by
  induction members with
  | nil => rfl
  | cons m members ih =>
    obtain ⟨hm, hmembers⟩ := List.forall_mem_cons.mp h
    rw [named, List.map_cons, skipMembers]
    change (m.2.skip >>= fun _ => skipMembers (named members)) = _
    rw [hm, ok_bind, ih hmembers]

/-- Nothing is wrong with a whole document that is skipped. -/
theorem Whole.skip_ok {d : Doc} (h : d.Whole) : d.skip = .ok () := by
  induction h with
  | null | bool | number | quoted => rfl
  | list _ ih => rw [ofList, skip, skipItems_ok ih]; rfl
  | object _ ih => rw [skip, skipMembers_ok ih]; rfl

theorem Whole.of_object {members : List (Doc × Doc)} {ending : Ending}
    (h : Whole (.object members ending)) : ∀ m ∈ members, m.2.Whole := by
  cases h with
  | object h =>
    intro m hm
    obtain ⟨m', hm', rfl⟩ := List.mem_map.mp hm
    exact h m' hm'

theorem Whole.of_list {items : List Doc} {ending : Ending} (h : Whole (.list items ending)) :
    ∀ d ∈ items, d.Whole := by
  cases h with
  | list h => exact h

/-! ## Buffering -/

/-- Every part has a value, and the containers are at most `n` deep. -/
inductive Held : Nat → Doc → Prop
  | null (n : Nat) : Held n .null
  | bool (n : Nat) (b : Bool) : Held n (.bool b)
  | number (n : Nat) {x : Numeral} (h : x.Spelled) (hvalue : x.value?.isSome) : Held n (.number x)
  | text (n : Nat) (s : String) : Held n (.ofString s)
  | list {n : Nat} {items : List Doc} (h : ∀ d ∈ items, Held n d) : Held (n + 1) (.ofList items)
  | object {n : Nat} {members : List (String × Doc)} (h : ∀ m ∈ members, Held n m.2) :
      Held (n + 1) (.ofMembers members)

theorem Held.integer (n : Nat) (i : Int64) : Held n (.ofInt i.toInt) := by
  have hlow := i.le_toInt
  have hhigh := i.toInt_lt
  refine .number n (Numeral.spelled_ofInt _) ?_
  rw [Numeral.value?_ofInt (by omega) (by omega)]
  rfl

theorem Held.sound {n : Nat} {d : Doc} (h : d.Held n) : d.Sound := by
  induction h with
  | null n => exact .null
  | bool n b => exact .bool b
  | number n h _ => exact .number h
  | text n s => exact .text s
  | list _ ih => exact .list ih
  | object _ ih => exact .object ih

theorem bufferItems_ok {r : Reading} {items : List Doc} (h : ∀ d ∈ items, d.buffer r = .ok ()) :
    bufferItems r items = .ok () := by
  induction items with
  | nil => rfl
  | cons d items ih =>
    obtain ⟨hd, hitems⟩ := List.forall_mem_cons.mp h
    rw [bufferItems, hd, ok_bind, ih hitems]

theorem bufferMembers_ok {r : Reading} {members : List (String × Doc)}
    (h : ∀ m ∈ members, m.2.buffer r = .ok ()) : bufferMembers r (keyed members) = .ok () := by
  induction members with
  | nil => rfl
  | cons m members ih =>
    obtain ⟨hm, hmembers⟩ := List.forall_mem_cons.mp h
    rw [keyed, List.map_cons, bufferMembers, readKey_ofString, ok_bind, hm, ok_bind]
    exact ih hmembers

/-- Nothing is wrong with a held document that is buffered. -/
theorem Held.buffer_ok {n : Nat} {d : Doc} (h : d.Held n) {r : Reading} (hr : n ≤ r.depth) :
    d.buffer r = .ok () := by
  induction h generalizing r with
  | null | bool | text => rfl
  | number n _ hvalue => rw [buffer, if_pos hvalue]; rfl
  | list _ ih =>
    obtain ⟨r', henter, hr'⟩ := Reading.enter_ok hr
    rw [ofList, buffer, henter, ok_bind, bufferItems_ok fun d hd => ih d hd hr']
    rfl
  | object _ ih =>
    obtain ⟨r', henter, hr'⟩ := Reading.enter_ok hr
    have hmembers := bufferMembers_ok fun m hm => ih m hm hr'
    rw [keyed] at hmembers
    rw [ofMembers, buffer, henter, ok_bind, hmembers]
    rfl

end Doc
end TracePlayback.Json
