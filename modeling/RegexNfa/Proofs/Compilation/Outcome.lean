import RegexNfa.Compilation
import RegexNfa.Proofs.Arena.Assembled
import RegexNfa.Proofs.Arena.DeadEnds
import RegexNfa.Proofs.Arena.Language
import RegexNfa.Proofs.Run.Configurations
import RegexNfa.Proofs.Token.Shunting
import RegexNfa.Proofs.Token.Slices

/-!
# What compiling comes to

An arena that has grown to a single live fragment can be frozen, and the automaton is closed and spells what
the fragment spells (`Grown.exists_frozen`).  So a compilation ends where assembling ends, in one of three
ways (`compile_outcome`): with an automaton, with a number of fragments other than one, or at a token that is
refused.  No fault can come up.

For a text that spells an expression it ends in the first way, with the automaton of that expression
(`compile_spells`), and what the automaton accepts is what the expression matches (`Frozen.accepts`).
-/

namespace RegexNfa

/-! ## Freezing -/

/-- The automaton is the arena, from the fragment's entry to its exit. -/
structure Arena.Frozen (a : Arena) (f : Fragment) (m : Automaton) : Prop where
  states_eq : m.states = a.states
  start_eq : m.start = f.entry
  accept_eq : m.accept = f.exit

namespace Arena

variable {a : Arena} {f : Fragment} {e : Expression}

/-- The exit of a live fragment accepts already. -/
lemma Grown.setAccepting_exit {live : List LiveFragment} (h : Grown live a)
    (hf : f ∈ fragments live) : a.setAccepting f.exit true = .ok a := by
  have hintact := h.intact
  obtain ⟨s, hs, haccepting⟩ := (hintact.accepting_iff f.exit).2 ⟨f, hf, rfl⟩
  have hstates : a.states.modify f.exit ({ · with accepting := true }) = a.states := by
    apply List.ext_getElem?
    intro id
    by_cases hid : id = f.exit
    · rw [hid, List.getElem?_modify_eq, hs]
      show some { s with accepting := true } = some s
      rw [← haccepting]
    · rw [List.getElem?_modify_ne _ _ (Ne.symm hid)]
  rw [setAccepting, modify_eq_ok]
  exact ⟨hintact.exit_lt hf, by rw [hstates]⟩

/-- An arena with a single live fragment freezes, as it is. -/
theorem Grown.exists_frozen (h : Grown [⟨f, e⟩] a) : ∃ m, a.finish f = .ok m ∧ Frozen a f m := by
  have hintact : Intact [f] a := h.intact
  have hf : f ∈ [f] := List.mem_singleton_self f
  have hids : a.states.map State.id = List.range a.states.length := h.numbered
  have hsole : ∀ s ∈ a.states, s.accepting = decide (s.id = f.exit) := by
    intro s hs
    obtain ⟨i, hlt, hi⟩ := List.mem_iff_getElem.1 hs
    have hsome : a.states[i]? = some s := by rw [List.getElem?_eq_getElem hlt, hi]
    have hid : s.id = i := by
      have hmap := congrArg (·[i]?) hids
      simpa [hlt, hi] using hmap
    have haccepting : Accepting a.states i ↔ i = f.exit := by
      rw [hintact.accepting_iff]
      simp [eq_comm]
    rw [Bool.eq_iff_iff, decide_eq_true_eq, hid, ← haccepting]
    constructor
    · intro htrue
      exact ⟨s, hsome, htrue⟩
    · intro haccepts
      obtain ⟨s', hs', htrue⟩ := haccepts
      rw [hsome] at hs'
      rwa [Option.some.inj hs']
  refine ⟨⟨a.states, f.entry, f.exit, hids, hintact.entry_lt hf, hintact.exit_lt hf, hsole⟩, ?_,
    rfl, rfl, rfl⟩
  rw [finish, h.setAccepting_exit hf]
  exact Automaton.ofStates_eq_ok.2 ⟨rfl, rfl, rfl⟩

variable {m : Automaton}

lemma Frozen.closed (hm : Frozen a f m) (h : Grown [⟨f, e⟩] a) : m.Closed := by
  intro s hs edge hedge
  obtain ⟨i, hi⟩ := List.mem_iff_getElem?.1 hs
  have hlt : edge.2 < a.size := by
    refine h.intact.edge_lt (p := i) ⟨s, ?_, hedge⟩
    rw [← hm.states_eq]
    exact hi
  rw [Automaton.size, hm.states_eq]
  exact hlt

/-- The start leads to every state. -/
lemma Frozen.leads_from_start (hm : Frozen a f m) (h : Grown [⟨f, e⟩] a) {id : Nat} (hid : id < m.size) :
    Leads m.states m.start id := by
  rw [Automaton.size, hm.states_eq] at hid
  obtain ⟨g, hg, leads⟩ := h.intact.covered id hid
  rw [List.mem_singleton.1 hg] at leads
  rw [hm.states_eq, hm.start_eq]
  exact leads

/-- Whatever the start leads to leads on to the accepting state. -/
lemma Frozen.leads_to_accept (hm : Frozen a f m) (h : Grown [⟨f, e⟩] a) {id : Nat}
    (leads : Leads m.states m.start id) : Leads m.states id m.accept := by
  rw [hm.states_eq, hm.start_eq] at leads
  rw [hm.states_eq, hm.accept_eq]
  exact h.noDeadEnd f (List.mem_singleton_self f) id leads

/-- Paths from the start to the accepting state spell what the expression matches. -/
lemma Frozen.path_iff_matches (hm : Frozen a f m) (h : Grown [⟨f, e⟩] a) (w : List Char) :
    Path m.states m.start w m.accept ↔ e.Matches w := by
  rw [hm.states_eq, hm.start_eq, hm.accept_eq]
  exact h.path_iff_matches ⟨f, e⟩ (List.mem_singleton_self _) w

/-- The automaton accepts what the expression matches. -/
theorem Frozen.accepts (hm : Frozen a f m) (h : Grown [⟨f, e⟩] a) (input : String) :
    ∃ verdict, m.accepts input = .ok verdict ∧ (verdict = true ↔ e.Matches input.toList) := by
  obtain ⟨verdict, hverdict, hpath⟩ := Automaton.accepts_iff_path (hm.closed h) input
  refine ⟨verdict, hverdict, ?_⟩
  rw [hpath, hm.path_iff_matches h]

end Arena

/-! ## Compiling -/

/-- The stream that is assembled. -/
def translated (source : String) : TokenStream :=
  (TokenStream.ofText source.toList).marked.postfixed

lemma fits_translated (source : String) : (translated source).Fits :=
  (TokenStream.fits_ofText source.toList).marked.postfixed

lemma compile_of_built {source : String} {logging : Bool} {f : Fragment} {e : Expression} {a : Arena}
    (h : (Arena.fresh logging).assemble (translated source) = (.ok f, a))
    (hgrown : Arena.Grown [⟨f, e⟩] a) :
    ∃ c, compile source logging = .ok c ∧ Arena.Frozen a f c.automaton := by
  obtain ⟨m, hfinish, hfrozen⟩ := hgrown.exists_frozen
  let explicit := (TokenStream.ofText source.toList).marked
  refine ⟨⟨source, explicit, translated source, m, a.log⟩, ?_, hfrozen⟩
  unfold translated at h ⊢
  unfold compile
  simp only [h, hfinish]
  rfl

lemma compile_of_refused {source : String} {logging : Bool} {failure : Failure} {a : Arena}
    (h : (Arena.fresh logging).assemble (translated source) = (.error failure, a)) :
    compile source logging = .error failure := by
  unfold translated at h
  unfold compile
  simp only [h]

/-- What a compilation was frozen from. -/
lemma exists_built {source : String} {logging : Bool} {c : Compilation} (h : compile source logging = .ok c) :
    ∃ f a, (Arena.fresh logging).assemble (translated source) = (.ok f, a) ∧ a.finish f = .ok c.automaton ∧
      c.explicit = (TokenStream.ofText source.toList).marked ∧ c.reordered = translated source ∧ c.log = a.log := by
  unfold translated
  unfold compile at h
  match hassemble : (Arena.fresh logging).assemble (TokenStream.ofText source.toList).marked.postfixed with
  | (.error failure, _) =>
    simp only [hassemble] at h
    exact absurd h (by simp)
  | (.ok f, a) =>
    cases hfinish : a.finish f with
    | error fault =>
      simp only [hassemble, hfinish] at h
      exact absurd h (by simp)
    | ok m =>
      simp only [hassemble, hfinish] at h
      obtain rfl := Except.ok.inj h
      exact ⟨f, a, rfl, hfinish, rfl, rfl, rfl⟩

/-- Assembling a translated text follows the count of its operands. -/
theorem assemble_outcome (source : String) (logging : Bool) :
    (TokenKind.depthAfter? 0 ((translated source).tokens.map Token.kind) = some 1 ∧
      ∃ f e a, (Arena.fresh logging).assemble (translated source) = (.ok f, a) ∧ Arena.Grown [⟨f, e⟩] a) ∨
    (∃ n a, TokenKind.depthAfter? 0 ((translated source).tokens.map Token.kind) = some n ∧ n ≠ 1 ∧
      (Arena.fresh logging).assemble (translated source) = (.error (.invalid
        ⟨if n = 0 then .empty else .unconnected n, (translated source).fullSpan⟩), a)) ∨
    ∃ before t after m a, (translated source).tokens = before ++ t :: after ∧
      TokenKind.depthAfter? 0 (before.map Token.kind) = some m ∧ TokenKind.depth? m t.kind = none ∧
      (Arena.fresh logging).assemble (translated source) = (.error (.invalid ⟨t.kind.blame, t.span⟩), a) := by
  have hread : Arena.Readable (translated source).source (translated source).tokens :=
    fun t ht hkind => (fits_translated source t ht).exists_literal hkind
  rcases Arena.assembleFrom_outcome (translated source).fullSpan hread (.fresh logging)
    with ⟨live, a, hgrown, hdepth, hassemble⟩ | ⟨before, t, after, m, a, htokens, hbefore, ht, hassemble⟩
  · -- one fragment left is the automaton, none and several are refused for the whole text
    match live, hgrown, hdepth, hassemble with
    | [], _, hdepth, hassemble => exact .inr (.inl ⟨0, a, hdepth, by decide, hassemble⟩)
    | [⟨f, e⟩], hgrown, hdepth, hassemble => exact .inl ⟨hdepth, f, e, a, hassemble, hgrown⟩
    | f :: g :: live, _, hdepth, hassemble =>
      have hlength : (Arena.fragments (f :: g :: live)).length = (f :: g :: live).length :=
        List.length_map _
      rw [← hlength] at hdepth
      exact .inr (.inl ⟨_, a, hdepth, by rw [hlength]; simp, hassemble⟩)
  · exact .inr (.inr ⟨before, t, after, m, a, htokens, hbefore, ht, hassemble⟩)

/-- A compilation follows the count of operands of the translated text. -/
theorem compile_outcome (source : String) (logging : Bool) :
    (TokenKind.depthAfter? 0 ((translated source).tokens.map Token.kind) = some 1 ∧
      ∃ c, compile source logging = .ok c ∧
        ∃ f e a, Arena.Grown [⟨f, e⟩] a ∧ a.Frozen f c.automaton) ∨
    (∃ n, TokenKind.depthAfter? 0 ((translated source).tokens.map Token.kind) = some n ∧ n ≠ 1 ∧
      compile source logging = .error (.invalid
        ⟨if n = 0 then .empty else .unconnected n, (translated source).fullSpan⟩)) ∨
    ∃ before t after m, (translated source).tokens = before ++ t :: after ∧
      TokenKind.depthAfter? 0 (before.map Token.kind) = some m ∧ TokenKind.depth? m t.kind = none ∧
      compile source logging = .error (.invalid ⟨t.kind.blame, t.span⟩) := by
  rcases assemble_outcome source logging with ⟨hdepth, f, e, a, hassemble, hgrown⟩ |
    ⟨n, _, hdepth, hne, hassemble⟩ | ⟨before, t, after, m, _, htokens, hbefore, ht, hassemble⟩
  · obtain ⟨c, hcompile, hfrozen⟩ := compile_of_built hassemble hgrown
    exact .inl ⟨hdepth, c, hcompile, f, e, a, hgrown, hfrozen⟩
  · exact .inr (.inl ⟨n, hdepth, hne, compile_of_refused hassemble⟩)
  · exact .inr (.inr ⟨before, t, after, m, htokens, hbefore, ht, compile_of_refused hassemble⟩)

/-! ## Texts that spell an expression -/

variable {source : String} {tree : ParseTree}

lemma assemble_spells (h : Spells source.toList tree) (logging : Bool) :
    ∃ f a, (Arena.fresh logging).assemble (translated source) = (.ok f, a) ∧
      Arena.Grown [⟨f, tree.expression⟩] a := by
  obtain ⟨live, a, hgrown, hlive, hassemble⟩ :=
    Arena.Reduces.ofTree (translated source).fullSpan h.readFrom [] _ (.fresh logging) rfl
  obtain ⟨⟨f, e⟩, rest, rfl, rfl, hrest⟩ := List.map_eq_cons_iff.1 hlive
  obtain rfl := List.map_eq_nil_iff.1 hrest
  have htokens : (translated source).tokens = tree.listing := Token.postfixed_ofText h
  have hall := hassemble []
  rw [List.append_nil] at hall
  refine ⟨f, a, ?_, hgrown⟩
  rw [Arena.assemble, htokens]
  exact hall

lemma compile_spells (h : Spells source.toList tree) (logging : Bool) :
    ∃ c, compile source logging = .ok c ∧
      ∃ f a, Arena.Grown [⟨f, tree.expression⟩] a ∧ a.Frozen f c.automaton := by
  obtain ⟨f, a, hbuilt, hgrown⟩ := assemble_spells h logging
  obtain ⟨c, hcompile, hfrozen⟩ := compile_of_built hbuilt hgrown
  exact ⟨c, hcompile, f, a, hgrown, hfrozen⟩

/-- The automaton of an expression accepts exactly the texts that the expression matches. -/
theorem accepts_iff_matches (h : Spells source.toList tree) (logging : Bool) :
    ∃ c, compile source logging = .ok c ∧ ∀ input : String,
      ∃ verdict, c.automaton.accepts input = .ok verdict ∧
        (verdict = true ↔ tree.expression.Matches input.toList) := by
  obtain ⟨c, hcompile, f, a, hgrown, hfrozen⟩ := compile_spells h logging
  exact ⟨c, hcompile, fun input => hfrozen.accepts hgrown input⟩

/-- `.` and `ε` are characters like any other, and `ε` takes two bytes. -/
theorem accepts_iff_matches_lookalikes :
    ∃ tree, Spells "(a|ε)*.".toList tree ∧ tree.expression =
        .concat (.star (.union (.literal 'a') (.literal 'ε'))) (.literal '.') ∧
      ∃ c, compile "(a|ε)*." = .ok c ∧ c.automaton.accepts "εa." = .ok true := by
  have hleft : Derives .alternation 1 ['a'] (.literal 'a' 1) :=
    .sequence (.repetition (.atom (.literal rfl)))
  have hright : Derives .sequence 3 ['ε'] (.literal 'ε' 3) := .repetition (.atom (.literal rfl))
  have hgroup : Derives .repetition 0 (['(', 'a', '|', 'ε', ')'] ++ ['*']) _ :=
    .star (.atom (.group (.union hleft hright)))
  have hspells : Spells "(a|ε)*.".toList _ :=
    .sequence (.concat (.repetition hgroup) (.atom (.literal rfl)))
  obtain ⟨c, hcompile, haccepts⟩ := accepts_iff_matches hspells false
  obtain ⟨verdict, hverdict, hmatches⟩ := haccepts "εa."
  have hword : Expression.Matches (.concat (.star (.union (.literal 'a') (.literal 'ε')))
      (.literal '.')) (['ε'] ++ (['a'] ++ []) ++ ['.']) :=
    .concat (.starAppend (.unionRight (.literal 'ε'))
      (.starAppend (.unionLeft (.literal 'a')) (.starNil _))) (.literal '.')
  have htrue : verdict = true := hmatches.2 hword
  exact ⟨_, hspells, rfl, c, hcompile, by rw [hverdict, htrue]⟩

end RegexNfa
