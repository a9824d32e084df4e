import Mathlib.Data.List.Induction
import Mathlib.Data.Nat.Digits.Defs
import TracePlayback.CommandLine
import TracePlayback.Proofs.Outcome

/-!
# The grammar of the command line

A group is an option with the argument it takes (`Group.Spelled`), and arguments split into groups
one after another (`Splits`). What an argument is thus depends on all before it: after an option
that names a file, even the name of an option is a path. Where no group fits, the parser says why
(`Misfit`).

Every list of arguments splits into groups up to its end or up to a misfit (`exists_splits`), and
what the parser does with either follows from what it does with one group (`Splits.groups`).

* `parse_grammar`: so the parser succeeds on the arguments that split and name a graph, with the
  value of the last group for each option (`result`), and fails otherwise at the first misfit; the
  order of groups of different options does not matter.
-/
namespace TracePlayback.CommandLine

/-! ## Groups -/

def Switch.argument (s : Switch) : Bytes := s.name.toUTF8.toList

/-- The digits as characters of a text. -/
def digitBytes (ds : List Nat) : Bytes := ds.map fun d => UInt8.ofNat (48 + d)

/-- The text of a number that fits a machine word: decimal digits, possibly after a plus. -/
def NumberText (text : Bytes) (n : Nat) : Prop :=
  ∃ ds : List Nat, ds ≠ [] ∧ (∀ d ∈ ds, d < 10) ∧
    (text = digitBytes ds ∨ text = 43 :: digitBytes ds) ∧
    n = Nat.ofDigits 10 ds.reverse ∧ n ≤ maxMs

/-- The arguments spell the group. -/
inductive Group.Spelled : Group → List Bytes → Prop
  | file (o : FileOption) (path : Bytes) :
      Spelled (.file o ⟨path⟩) [(Switch.file o).argument, path]
  | number (o : NumberOption) {text : Bytes} {n : Nat} (h : NumberText text n) :
      Spelled (.number o n) [(Switch.number o).argument, text]
  | flag (f : Flag) : Spelled (.flag f) [(Switch.flag f).argument]

/-- The arguments split into the groups, with nothing left over. -/
inductive Splits : List Bytes → List Group → Prop
  | nil : Splits [] []
  | cons {g : Group} {arguments rest : List Bytes} {gs : List Group} (h : g.Spelled arguments)
      (hrest : Splits rest gs) : Splits (arguments ++ rest) (g :: gs)

/-- No group fits in front, for the given reason. -/
inductive Misfit : List Bytes → Error → Prop
  | noPath (o : FileOption) : Misfit [(Switch.file o).argument] (.noPath o)
  | noNumber (o : NumberOption) : Misfit [(Switch.number o).argument] (.noNumber o)
  | invalidNumber (o : NumberOption) {text : Bytes} (h : ∀ n, ¬ NumberText text n)
      (rest : List Bytes) :
      Misfit ((Switch.number o).argument :: text :: rest) (.invalidNumber o text)
  | unknown {argument : Bytes} (h : ∀ s : Switch, argument ≠ s.argument) (rest : List Bytes) :
      Misfit (argument :: rest) (.unknown argument)

/-! ## Options and numbers -/

theorem Switch.ofArgument?_argument (s : Switch) : ofArgument? s.argument = some s := by
  have hall : ∀ s ∈ all, ofArgument? s.argument = some s := by decide +kernel
  refine hall s ?_
  cases s with
  | file o => cases o <;> decide
  | number o => cases o <;> decide
  | flag f => cases f <;> decide

theorem Switch.ofArgument?_eq_some {argument : Bytes} {s : Switch} :
    ofArgument? argument = some s ↔ argument = s.argument := by
  constructor
  · intro h
    have hname := List.find?_some h
    exact (of_decide_eq_true hname).symm
  · rintro rfl
    exact s.ofArgument?_argument

theorem Switch.ofArgument?_eq_none {argument : Bytes} :
    ofArgument? argument = none ↔ ∀ s : Switch, argument ≠ s.argument := by
  simp only [Option.eq_none_iff_forall_ne_some, ne_eq, ofArgument?_eq_some]

theorem toNat_digit {d : Nat} (hd : d < 10) : (UInt8.ofNat (48 + d)).toNat = 48 + d := by
  rw [UInt8.toNat_ofNat']
  omega

theorem digit?_eq_some {b : UInt8} {d : Nat} :
    digit? b = some d ↔ d < 10 ∧ b = UInt8.ofNat (48 + d) := by
  rw [digit?]
  constructor
  · intro h
    split at h
    · rename_i hb
      cases h
      have hnat : 48 + (b.toNat - 48) = b.toNat := by omega
      exact ⟨by omega, by rw [hnat, UInt8.ofNat_toNat]⟩
    · cases h
  · rintro ⟨hd, rfl⟩
    rw [toNat_digit hd, if_pos (by omega), Nat.add_sub_cancel_left]

theorem mapM_digit?_eq_some {text : Bytes} {ds : List Nat} :
    text.mapM digit? = some ds ↔ (∀ d ∈ ds, d < 10) ∧ text = digitBytes ds := by
  induction text generalizing ds with
  | nil => cases ds <;> simp [digitBytes]
  | cons b text ih =>
    simp only [List.mapM_cons, Option.bind_eq_bind, Option.bind_eq_some_iff, Option.pure_def,
      Option.some.injEq, digit?_eq_some, ih]
    constructor
    · rintro ⟨d, ⟨hd, rfl⟩, ds, ⟨hds, rfl⟩, rfl⟩
      exact ⟨List.forall_mem_cons.mpr ⟨hd, hds⟩, rfl⟩
    · rintro ⟨hds, htext⟩
      cases ds with
      | nil => cases htext
      | cons d ds =>
        obtain ⟨rfl, rfl⟩ := List.cons.inj htext
        obtain ⟨hd, hds⟩ := List.forall_mem_cons.mp hds
        exact ⟨d, ⟨hd, rfl⟩, ds, ⟨hds, rfl⟩, rfl⟩

/-- The argument without a plus in front. -/
def bare : Bytes → Bytes
  | 43 :: rest => rest
  | rest => rest

theorem bare_digitBytes {ds : List Nat} (hds : ∀ d ∈ ds, d < 10) :
    bare (digitBytes ds) = digitBytes ds := by
  unfold bare
  split
  · rename_i rest hplus
    cases ds with
    | nil => cases hplus
    | cons d ds =>
      have hhead : UInt8.ofNat (48 + d) = 43 := (List.cons.inj hplus).1
      have hd := toNat_digit (hds d List.mem_cons_self)
      rw [hhead] at hd
      change 43 = 48 + d at hd
      omega
  · rfl

theorem number?_eq (argument : Bytes) : number? argument =
    (bare argument).mapM digit? >>= fun ds =>
      if ds.isEmpty ∨ maxMs < Nat.ofDigits 10 ds.reverse then none
      else some (Nat.ofDigits 10 ds.reverse) := by
  have hvalue (ds : List Nat) :
      Nat.ofDigits 10 ds.reverse = ds.foldl (fun n d => n * 10 + d) 0 := by
    rw [Nat.ofDigits_eq_foldr, List.foldr_reverse]
    simp only [Nat.cast_id, Nat.add_comm, Nat.mul_comm]
  simp only [hvalue]
  rfl

theorem number?_eq_some {argument : Bytes} {n : Nat} :
    number? argument = some n ↔ NumberText argument n := by
  simp only [number?_eq, Option.bind_eq_bind, Option.bind_eq_some_iff, mapM_digit?_eq_some]
  constructor
  · rintro ⟨ds, ⟨hds, htext⟩, hfit⟩
    split at hfit
    · cases hfit
    · rename_i hfits
      cases hfit
      refine ⟨ds, by simpa using (not_or.mp hfits).1, hds, ?_, rfl, by omega⟩
      unfold bare at htext
      split at htext
      · exact .inr (htext ▸ rfl)
      · exact .inl htext
  · rintro ⟨ds, hne, hds, htext, rfl, hfits⟩
    refine ⟨ds, ⟨hds, ?_⟩, ?_⟩
    · rcases htext with rfl | rfl
      · exact bare_digitBytes hds
      · rfl
    · rw [if_neg (by simpa [hne] using hfits)]

/-! ## Splitting -/

theorem Group.Spelled.groups {g : Group} {arguments : List Bytes} (h : g.Spelled arguments)
    (rest : List Bytes) :
    groups (arguments ++ rest) = (do return g :: (← CommandLine.groups rest)) := by
  cases h with
  | file o path => simp [CommandLine.groups, Switch.ofArgument?_argument]
  | number o h =>
    simp [CommandLine.groups, Switch.ofArgument?_argument, number?_eq_some.mpr h]
  | flag f => simp [CommandLine.groups, Switch.ofArgument?_argument]

theorem Splits.groups {arguments : List Bytes} {gs : List Group} (h : Splits arguments gs)
    (rest : List Bytes) :
    groups (arguments ++ rest) = (do return gs ++ (← CommandLine.groups rest)) := by
  induction h with
  | nil => simp
  | cons h _ ih =>
    rw [List.append_assoc, h.groups, ih]
    simp

theorem Misfit.groups {arguments : List Bytes} {err : Error} (h : Misfit arguments err) :
    groups arguments = .error err := by
  cases h with
  | noPath o => simp only [CommandLine.groups, Switch.ofArgument?_argument]; rfl
  | noNumber o => simp only [CommandLine.groups, Switch.ofArgument?_argument]; rfl
  | @invalidNumber o text h rest =>
    have hnone : number? text = none :=
      Option.eq_none_iff_forall_ne_some.mpr fun n hn => h n (number?_eq_some.mp hn)
    simp only [CommandLine.groups, Switch.ofArgument?_argument, hnone]
    rfl
  | unknown h rest =>
    simp only [CommandLine.groups, Switch.ofArgument?_eq_none.mpr h]
    rfl

/-- The arguments split up to their end, or up to a misfit. -/
def SplitsFar (arguments : List Bytes) : Prop :=
  ∃ before rest gs, arguments = before ++ rest ∧ Splits before gs ∧
    (rest = [] ∨ ∃ err, Misfit rest err)

theorem SplitsFar.cons {g : Group} {arguments rest : List Bytes} (h : g.Spelled arguments)
    (hrest : SplitsFar rest) : SplitsFar (arguments ++ rest) := by
  obtain ⟨before, after, gs, rfl, hbefore, hafter⟩ := hrest
  exact ⟨arguments ++ before, after, g :: gs, (List.append_assoc ..).symm, .cons h hbefore, hafter⟩

theorem Misfit.splitsFar {arguments : List Bytes} {err : Error} (h : Misfit arguments err) :
    SplitsFar arguments :=
  ⟨[], arguments, [], rfl, .nil, .inr ⟨err, h⟩⟩

/-- So does every list of arguments. By the recursion of the parser: where it splits a group off,
the group is spelled there, and where it stops, there is a misfit. -/
theorem splitsFar (arguments : List Bytes) : SplitsFar arguments := by
  fun_induction CommandLine.groups arguments with
  | case1 => exact ⟨[], [], [], rfl, .nil, .inl rfl⟩
  | case2 argument rest hnone =>
    exact (Misfit.unknown (Switch.ofArgument?_eq_none.mp hnone) rest).splitsFar
  | case3 argument rest f hf ih =>
    obtain rfl := Switch.ofArgument?_eq_some.mp hf
    exact ih.cons (.flag f)
  | case4 argument o ho =>
    obtain rfl := Switch.ofArgument?_eq_some.mp ho
    exact (Misfit.noPath o).splitsFar
  | case5 argument o ho path rest ih =>
    obtain rfl := Switch.ofArgument?_eq_some.mp ho
    exact ih.cons (.file o path)
  | case6 argument o ho =>
    obtain rfl := Switch.ofArgument?_eq_some.mp ho
    exact (Misfit.noNumber o).splitsFar
  | case7 argument o ho text rest hnone =>
    obtain rfl := Switch.ofArgument?_eq_some.mp ho
    refine (Misfit.invalidNumber o (fun n hn => ?_) rest).splitsFar
    rw [number?_eq_some.mpr hn] at hnone
    cases hnone
  | case8 argument o ho text rest n hn ih =>
    obtain rfl := Switch.ofArgument?_eq_some.mp ho
    exact ih.cons (.number o (number?_eq_some.mp hn))

theorem groups_eq_ok {arguments : List Bytes} {gs : List Group} :
    groups arguments = .ok gs ↔ Splits arguments gs := by
  have hok {arguments : List Bytes} {gs : List Group} (h : Splits arguments gs) :
      groups arguments = .ok gs := by
    have hgroups := h.groups []
    rw [List.append_nil] at hgroups
    simp only [hgroups, groups, pure_bind, List.append_nil]
    rfl
  refine ⟨fun h => ?_, hok⟩
  obtain ⟨before, rest, gs', rfl, hbefore, rfl | ⟨err, herr⟩⟩ := splitsFar arguments
  · rw [List.append_nil] at h ⊢
    rw [hok hbefore] at h
    cases h
    exact hbefore
  · rw [hbefore.groups, herr.groups] at h
    cases h

theorem groups_eq_error {arguments : List Bytes} {err : Error} :
    groups arguments = .error err ↔ ∃ before rest gs, arguments = before ++ rest ∧
      Splits before gs ∧ Misfit rest err := by
  constructor
  · intro h
    obtain ⟨before, rest, gs, rfl, hbefore, rfl | ⟨err', herr⟩⟩ := splitsFar arguments
    · rw [List.append_nil, groups_eq_ok.mpr hbefore] at h
      cases h
    · have hsame := h
      rw [hbefore.groups, herr.groups] at hsame
      cases hsame
      exact ⟨before, rest, gs, rfl, hbefore, herr⟩
  · rintro ⟨before, rest, gs, rfl, hbefore, herr⟩
    rw [hbefore.groups, herr.groups]
    rfl

/-! ## The result -/

/-- The option of a group. -/
def Group.switch : Group → Switch
  | .file o _ => .file o
  | .number o _ => .number o
  | .flag f => .flag f

def Group.path? : Group → Option Path
  | .file _ path => some path
  | _ => none

def Group.number? : Group → Option Nat
  | .number _ n => some n
  | _ => none

/-- The last group of an option. -/
def last? (s : Switch) (gs : List Group) : Option Group :=
  (gs.filter fun g => g.switch = s).getLast?

/-- Every option with the value of its last group. -/
def result (gs : List Group) : CommandLine where
  graph := ((last? (.file .graph) gs).bind Group.path?).getD ⟨[]⟩
  live := (last? (.file .live) gs).bind Group.path?
  ghost := (last? (.file .ghost) gs).bind Group.path?
  config := (last? (.file .config) gs).bind Group.path?
  liveStepMs := (last? (.number .liveStepMs) gs).bind Group.number?
  untilMs := (last? (.number .untilMs) gs).bind Group.number?
  looping := (last? (.flag .looping) gs).isSome
  realtime := (last? (.flag .realtime) gs).isSome
  mute := (last? (.flag .mute) gs).isSome

theorem last?_concat (s : Switch) (gs : List Group) (g : Group) :
    last? s (gs ++ [g]) = if g.switch = s then some g else last? s gs := by
  by_cases hg : g.switch = s <;> simp [last?, List.filter_append, hg]

theorem foldl_take (gs : List Group) : gs.foldl take { graph := ⟨[]⟩ } = result gs := by
  induction gs using List.reverseRecOn with
  | nil => rfl
  | append_singleton gs g ih =>
    rw [List.foldl_concat, ih]
    cases g with
    | file o path =>
      cases o <;> simp [take, result, last?_concat, Group.switch, Group.path?]
    | number o n =>
      cases o <;> simp [take, result, last?_concat, Group.switch, Group.number?]
    | flag f =>
      cases f <;> simp [take, result, last?_concat, Group.switch]

theorem any_namesGraph {gs : List Group} :
    gs.any namesGraph = true ↔ ∃ path, .file .graph path ∈ gs := by
  rw [List.any_eq_true]
  constructor
  · rintro ⟨g, hg, hgraph⟩
    unfold namesGraph at hgraph
    split at hgraph
    · exact ⟨_, hg⟩
    · cases hgraph
  · rintro ⟨path, hg⟩
    exact ⟨_, hg, rfl⟩

theorem mem_graph_iff {gs : List Group} : (∃ path, .file .graph path ∈ gs) ↔
    gs.filter (fun g => g.switch = .file .graph) ≠ [] := by
  simp only [ne_eq, List.filter_eq_nil_iff, decide_eq_true_eq, not_forall, not_not]
  constructor
  · rintro ⟨path, hg⟩
    exact ⟨_, hg, rfl⟩
  · rintro ⟨g, hg, hswitch⟩
    cases g with
    | file o path => cases hswitch; exact ⟨path, hg⟩
    | _ => cases hswitch

theorem Splits.parse_of_graph {arguments : List Bytes} {gs : List Group} (h : Splits arguments gs)
    (hgraph : ∃ path, .file .graph path ∈ gs) : parse arguments = .ok (result gs) := by
  rw [parse, groups_eq_ok.mpr h, ok_bind, if_pos (any_namesGraph.mpr hgraph), foldl_take]
  rfl

theorem Splits.parse_of_no_graph {arguments : List Bytes} {gs : List Group}
    (h : Splits arguments gs) (hgraph : ¬ ∃ path, .file .graph path ∈ gs) :
    parse arguments = .error .noGraph := by
  rw [parse, groups_eq_ok.mpr h, ok_bind, if_neg (mt any_namesGraph.mp hgraph)]
  rfl

theorem parse_of_misfit {before rest : List Bytes} {gs : List Group} {err : Error}
    (hbefore : Splits before gs) (h : Misfit rest err) : parse (before ++ rest) = .error err := by
  rw [parse, groups_eq_error.mpr ⟨before, rest, gs, rfl, hbefore, h⟩]
  rfl

/-- Only the lack of a graph is reported as such. The other messages begin with a letter, or say
something else about an option. -/
theorem Error.message_eq_required {err : Error} :
    err.message = "--graph is required" ↔ err = .noGraph := by
  have hhead (s t : String) : (s ++ t).toList.head? = s.toList.head?.or t.toList.head? := by
    rw [String.toList_append, List.head?_append]
  constructor
  · intro h
    have hdash : err.message.toList.head? = some '-' := h ▸ rfl
    cases err with
    | noPath o => cases o <;> exact absurd h (by decide +kernel)
    | noNumber o => cases o <;> exact absurd h (by decide +kernel)
    | invalidNumber o text =>
      have hmessage : (invalidNumber o text).message = "invalid value for " ++
        (Switch.number o).name ++ ": " ++ (Path.mk text).display := rfl
      have hletter : "invalid value for ".toList.head? = some 'i' := rfl
      rw [hmessage, hhead, hhead, hhead, hletter] at hdash
      cases hdash
    | unknown argument =>
      have hmessage : (unknown argument).message = "unknown argument: " ++
        Text.quoteBytes argument := rfl
      have hletter : "unknown argument: ".toList.head? = some 'u' := rfl
      rw [hmessage, hhead, hletter] at hdash
      cases hdash
    | noGraph => rfl
  · rintro rfl
    rfl

/-- The parser's three ways to end, by what the grammar makes of the arguments. -/
theorem parse_cases (arguments : List Bytes) :
    (∃ gs, Splits arguments gs ∧ (∃ path, .file .graph path ∈ gs) ∧
      parse arguments = .ok (result gs)) ∨
    (∃ gs, Splits arguments gs ∧ (¬ ∃ path, .file .graph path ∈ gs) ∧
      parse arguments = .error .noGraph) ∨
    ∃ before rest gs err, arguments = before ++ rest ∧ Splits before gs ∧ Misfit rest err ∧
      parse arguments = .error err := by
  obtain ⟨before, rest, gs, rfl, hbefore, rfl | ⟨err, herr⟩⟩ := splitsFar arguments
  · rw [List.append_nil]
    by_cases hgraph : ∃ path, .file .graph path ∈ gs
    · exact .inl ⟨gs, hbefore, hgraph, hbefore.parse_of_graph hgraph⟩
    · exact .inr (.inl ⟨gs, hbefore, hgraph, hbefore.parse_of_no_graph hgraph⟩)
  · exact .inr (.inr ⟨before, rest, gs, err, rfl, hbefore, herr, parse_of_misfit hbefore herr⟩)

theorem parse_eq_ok {arguments : List Bytes} {c : CommandLine} : parse arguments = .ok c ↔
    ∃ gs, Splits arguments gs ∧ (∃ path, .file .graph path ∈ gs) ∧ c = result gs := by
  constructor
  · intro h
    obtain ⟨gs, hgs, hgraph, hok⟩ | ⟨_, _, _, herr⟩ | ⟨_, _, _, _, _, _, _, herr⟩ :=
      parse_cases arguments
    · rw [hok] at h
      exact ⟨gs, hgs, hgraph, (Except.ok.inj h).symm⟩
    all_goals rw [herr] at h; cases h
  · rintro ⟨gs, hgs, hgraph, rfl⟩
    exact hgs.parse_of_graph hgraph

theorem parse_eq_error {arguments : List Bytes} {err : Error} : parse arguments = .error err ↔
    (∃ before rest gs, arguments = before ++ rest ∧ Splits before gs ∧ Misfit rest err) ∨
    err = .noGraph ∧ ∃ gs, Splits arguments gs ∧ ¬ ∃ path, .file .graph path ∈ gs := by
  constructor
  · intro h
    obtain ⟨_, _, _, hok⟩ | ⟨gs, hgs, hgraph, herr⟩ |
      ⟨before, rest, gs, err', harguments, hbefore, hmisfit, herr⟩ := parse_cases arguments
    · rw [hok] at h; cases h
    · rw [herr] at h
      exact .inr ⟨(Except.error.inj h).symm, gs, hgs, hgraph⟩
    · rw [herr] at h
      exact .inl ⟨before, rest, gs, harguments, hbefore, Except.error.inj h ▸ hmisfit⟩
  · rintro (⟨before, rest, gs, rfl, hbefore, herr⟩ | ⟨rfl, gs, hgs, hgraph⟩)
    · exact parse_of_misfit hbefore herr
    · exact hgs.parse_of_no_graph hgraph

/-- **The parser accepts its grammar.** It succeeds on the arguments that split into groups with a
graph among them, and every option has the value of its last group. It fails at the first misfit, or
for the lack of a graph, which is not reported before everything has split. The arguments may be
rearranged, if the groups of each option keep their order among themselves. -/
theorem parse_grammar (arguments : List Bytes) :
    (∀ c, parse arguments = .ok c ↔
      ∃ gs, Splits arguments gs ∧ (∃ path, .file .graph path ∈ gs) ∧ c = result gs) ∧
    (∀ err, parse arguments = .error err ↔
      (∃ before rest gs, arguments = before ++ rest ∧ Splits before gs ∧ Misfit rest err) ∨
      err = .noGraph ∧ ∃ gs, Splits arguments gs ∧ ¬ ∃ path, .file .graph path ∈ gs) ∧
    (∀ err, parse arguments = .error err → err.message = "--graph is required" →
      ∃ gs, Splits arguments gs ∧ ¬ ∃ path, .file .graph path ∈ gs) ∧
    ∀ arguments' gs gs', Splits arguments gs → Splits arguments' gs' →
      (∀ s : Switch, gs.filter (fun g => g.switch = s) = gs'.filter (fun g => g.switch = s)) →
      parse arguments = parse arguments' := by
  refine ⟨fun _ => parse_eq_ok, fun _ => parse_eq_error, ?_, ?_⟩
  · intro err h hmessage
    obtain rfl := Error.message_eq_required.mp hmessage
    rcases parse_eq_error.mp h with ⟨_, _, _, _, _, hmisfit⟩ | ⟨-, hgs⟩
    · cases hmisfit
    · exact hgs
  · intro arguments' gs gs' hgs hgs' hsame
    have hresult : result gs = result gs' := by simp only [result, last?, hsame]
    have hgraph : (∃ path, .file .graph path ∈ gs) ↔ ∃ path, .file .graph path ∈ gs' := by
      rw [mem_graph_iff, mem_graph_iff, hsame]
    by_cases h : ∃ path, .file .graph path ∈ gs
    · rw [hgs.parse_of_graph h, hgs'.parse_of_graph (hgraph.mp h), hresult]
    · rw [hgs.parse_of_no_graph h, hgs'.parse_of_no_graph (mt hgraph.mpr h)]

/-- A path that looks like an option, a number with a plus and zeros in front and two graphs, of
which the last counts, also after a flag has moved; a number one beyond the greatest, which is
reported although no graph is named; and a command line that only lacks a graph. -/
theorem parse_grammar_until :
    let word (s : String) : Bytes := s.toUTF8.toList
    let arguments := ["--graph", "--loop", "--until-ms", "+007", "--mute", "--graph", "g"].map word
    let moved := ["--mute", "--graph", "--loop", "--until-ms", "+007", "--graph", "g"].map word
    let c : CommandLine := { graph := ⟨word "g"⟩, untilMs := some 7, mute := true }
    let beyond := ["--live", "t", "--until-ms", "18446744073709551616", "--fast"].map word
    let bare := ["--live", "t"].map word
    (parse arguments = .ok c ∧ parse moved = .ok c) ∧
    parse beyond = .error (.invalidNumber .untilMs (word "18446744073709551616")) ∧
    parse bare = .error .noGraph ∧ ∃ gs, Splits bare gs ∧ ¬ ∃ path, .file .graph path ∈ gs := by
  intro word arguments moved c beyond bare
  have hseven : NumberText (word "+007") 7 :=
    ⟨[0, 0, 7], by decide, by decide, .inr (by decide +kernel), by decide, by decide⟩
  have hbeyond (n : Nat) : ¬ NumberText (word "18446744073709551616") n := by
    have hnone : number? (word "18446744073709551616") = none := by decide +kernel
    intro hn
    rw [number?_eq_some.mpr hn] at hnone
    cases hnone
  have harguments : Splits arguments [.file .graph ⟨word "--loop"⟩, .number .untilMs 7, .flag .mute,
      .file .graph ⟨word "g"⟩] :=
    .cons (.file .graph _) (.cons (.number .untilMs hseven) (.cons (.flag .mute)
      (.cons (.file .graph _) .nil)))
  have hmoved : Splits moved [.flag .mute, .file .graph ⟨word "--loop"⟩, .number .untilMs 7,
      .file .graph ⟨word "g"⟩] :=
    .cons (.flag .mute) (.cons (.file .graph _) (.cons (.number .untilMs hseven)
      (.cons (.file .graph _) .nil)))
  have hbare : Splits bare [.file .live ⟨word "t"⟩] := .cons (.file .live _) .nil
  have hparse : parse arguments = .ok c :=
    ((parse_grammar arguments).1 c).mpr ⟨_, harguments, ⟨_, List.mem_cons_self⟩, by decide +kernel⟩
  have hsame : parse arguments = parse moved := by
    refine (parse_grammar arguments).2.2.2 moved _ _ harguments hmoved ?_
    rintro (o | o | f)
    · cases o <;> rfl
    · cases o <;> rfl
    · cases f <;> rfl
  have herror : parse bare = .error .noGraph :=
    ((parse_grammar bare).2.1 .noGraph).mpr (.inr ⟨rfl, _, hbare, by simp⟩)
  refine ⟨⟨hparse, hsame ▸ hparse⟩, ((parse_grammar beyond).2.1 _).mpr (.inl ?_), herror,
    (parse_grammar bare).2.2.1 .noGraph herror rfl⟩
  exact ⟨bare, ["--until-ms", "18446744073709551616", "--fast"].map word, _, rfl, hbare,
    .invalidNumber .untilMs hbeyond _⟩

end TracePlayback.CommandLine
