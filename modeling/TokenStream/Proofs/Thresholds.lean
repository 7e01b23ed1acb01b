import TokenStream.Session
import Mathlib.Tactic

/-!
# The thresholds of a log

A filter has a table of targets, of which the longest that an event's target starts with decides.
The filter of a configuration has an entry for each phase, and comes to two thresholds: one for what
starts with the target of lexing, and one for everything else.

**Input** a configuration, and the target and the level of an event.

**Results** the rule of the table and that it leaves no choice; the two thresholds; and what follows
for the events of a listing: each phase has its own threshold, and a lower one only adds events.
-/

namespace TokenStream

namespace Filter

variable {f : Filter} {target : List Char} {level level' : Level}

/-- The level that decides on a target: that of a longest entry that the target starts with, or the
general level if there is no such entry. -/
inductive Decides (f : Filter) (target : List Char) : Level → Prop
  | general
      (h : ∀ entry ∈ f.targets, ¬ entry.1 <+: target) :
      Decides f target f.general
  | longest
      {entry : List Char × Level}
      (hmem : entry ∈ f.targets)
      (hfront : entry.1 <+: target)
      (hlongest : ∀ other ∈ f.targets, other.1 <+: target → other.1.length ≤ entry.1.length) :
      Decides f target entry.2

theorem longer_cases (a b : List Char × Level) :
    longer a b = a ∧ b.1.length ≤ a.1.length ∨ longer a b = b ∧ a.1.length ≤ b.1.length := by
  unfold longer
  split
  · exact .inr ⟨rfl, by omega⟩
  · exact .inl ⟨rfl, by omega⟩

/-- The entry that is left is one of the table, and none is longer. -/
theorem foldl_longer (entry : List Char × Level) (entries : List (List Char × Level)) :
    entries.foldl longer entry ∈ entry :: entries ∧
      ∀ other ∈ entry :: entries, other.1.length ≤ (entries.foldl longer entry).1.length := by
  induction entries generalizing entry with
  | nil => simp
  | cons next entries ih =>
      rw [List.foldl_cons]
      rcases longer_cases entry next with ⟨heq, hle⟩ | ⟨heq, hle⟩
      · rw [heq]
        obtain ⟨hmem, hlongest⟩ := ih entry
        obtain ⟨hkept, hrest⟩ := List.forall_mem_cons.mp hlongest
        refine ⟨?_, List.forall_mem_cons.mpr ⟨hkept,
          List.forall_mem_cons.mpr ⟨hle.trans hkept, hrest⟩⟩⟩
        exact List.mem_cons.mpr ((List.mem_cons.mp hmem).imp_right (List.mem_cons_of_mem next))
      · rw [heq]
        obtain ⟨hmem, hlongest⟩ := ih next
        have hkept := hlongest next List.mem_cons_self
        exact ⟨List.mem_cons_of_mem entry hmem,
          List.forall_mem_cons.mpr ⟨hle.trans hkept, hlongest⟩⟩

theorem decides_threshold (f : Filter) (target : List Char) :
    f.Decides target (f.threshold target) := by
  have hmem (entry : List Char × Level) :
      entry ∈ f.targets.filter (fun entry => entry.1.isPrefixOf target) ↔
        entry ∈ f.targets ∧ entry.1 <+: target := by
    rw [List.mem_filter, List.isPrefixOf_iff_prefix]
  unfold threshold
  cases hfound : f.targets.filter (fun entry => entry.1.isPrefixOf target) with
  | nil =>
      refine .general fun entry hentry hfront => ?_
      have h := (hmem entry).mpr ⟨hentry, hfront⟩
      rw [hfound] at h
      exact absurd h List.not_mem_nil
  | cons entry entries =>
      obtain ⟨hkept, hlongest⟩ := foldl_longer entry entries
      rw [← hfound] at hkept hlongest
      obtain ⟨hentry, hfront⟩ := (hmem _).mp hkept
      exact .longest hentry hfront fun other hother hother' =>
        hlongest other ((hmem other).mpr ⟨hother, hother'⟩)

/-- If no target has two entries, the rule leaves no choice. -/
theorem Decides.unique
    (hnodup : (f.targets.map Prod.fst).Nodup)
    (h : f.Decides target level)
    (h' : f.Decides target level') :
    level = level' := by
  cases h with
  | general hnone =>
      cases h' with
      | general _ => rfl
      | longest hmem hfront _ => exact absurd hfront (hnone _ hmem)
  | @longest entry hmem hfront hlongest =>
      cases h' with
      | general hnone => exact absurd hfront (hnone _ hmem)
      | @longest entry' hmem' hfront' hlongest' =>
          -- two beginnings of one text that are equally long are the same
          have hlength := Nat.le_antisymm (hlongest' _ hmem hfront) (hlongest _ hmem' hfront')
          have htarget : entry.1 = entry'.1 :=
            (List.prefix_of_prefix_length_le hfront hfront' hlength.le).eq_of_length hlength
          rw [List.inj_on_of_nodup_map hnodup hmem hmem' htarget]

theorem threshold_eq_of_decides
    (hnodup : (f.targets.map Prod.fst).Nodup)
    (h : f.Decides target level) :
    f.threshold target = level :=
  (f.decides_threshold target).unique hnodup h

end Filter

/-- The phase that a target belongs to: lexing if it starts as the targets of lexing do. -/
def Phase.ofTarget (target : List Char) : Phase :=
  if Phase.lexer.target <+: target then .lexer else .cli

def Event.phase (e : Event) : Phase :=
  Phase.ofTarget e.target

theorem Phase.ofTarget_eq_lexer_iff (target : List Char) :
    Phase.ofTarget target = .lexer ↔ "lamb::lexer".toList <+: target := by
  have htarget : Phase.lexer.target = "lamb::lexer".toList := rfl
  rw [Phase.ofTarget, htarget]
  split_ifs with h
  · exact iff_of_true rfl h
  · exact iff_of_false nofun h

theorem Phase.ofTarget_eq_cli_iff (target : List Char) :
    Phase.ofTarget target = .cli ↔ ¬ "lamb::lexer".toList <+: target := by
  rw [← Phase.ofTarget_eq_lexer_iff]
  cases Phase.ofTarget target <;> simp

namespace Config

variable {config other : Config} {target : List Char}

/-- The events that a log shows. -/
def shown (config : Config) (events : List Event) : List Event :=
  events.filter config.filter.shows

/-- A target is decided on by the level of its phase. -/
theorem decides_levelFor (config : Config) (target : List Char) :
    config.filter.Decides target (config.levelFor (.ofTarget target)) := by
  have hmem (entry : List Char × Level) :
      entry ∈ config.filter.targets ↔
        entry = (Phase.lexer.target, config.levelFor .lexer) ∨
          entry = (Phase.cli.target, config.levelFor .cli) := by
    simp [filter]
  unfold Phase.ofTarget
  split_ifs with hlexer
  · refine .longest ((hmem _).mpr (.inl rfl)) hlexer fun other hother _ => ?_
    rcases (hmem other).mp hother with rfl | rfl
    · exact le_rfl
    · exact (by decide : Phase.cli.target.length ≤ Phase.lexer.target.length)
  · by_cases hcli : Phase.cli.target <+: target
    · refine .longest ((hmem _).mpr (.inr rfl)) hcli fun other hother hfront => ?_
      rcases (hmem other).mp hother with rfl | rfl
      · exact absurd hfront hlexer
      · exact le_rfl
    · -- the general level is that of the command line
      refine .general fun entry hentry hfront => ?_
      rcases (hmem entry).mp hentry with rfl | rfl
      · exact hlexer hfront
      · exact hcli hfront

theorem threshold_filter (config : Config) (target : List Char) :
    config.filter.threshold target = config.levelFor (.ofTarget target) := by
  have hnodup : (config.filter.targets.map Prod.fst).Nodup :=
    (by decide : [Phase.lexer.target, Phase.cli.target].Nodup)
  exact Filter.threshold_eq_of_decides hnodup (config.decides_levelFor target)

/-- Two thresholds decide on all targets. -/
theorem enables_eq_passes (config : Config) (target : List Char) (level : Level) :
    config.filter.enables target level = level.passes (config.levelFor (.ofTarget target)) := by
  rw [Filter.enables, threshold_filter]

theorem shown_eq_filter (config : Config) (events : List Event) :
    config.shown events = events.filter fun e => e.level.passes (config.levelFor e.phase) :=
  congrArg (events.filter ·) (funext fun e => config.enables_eq_passes e.target e.level)

/-- What is shown of a phase depends on the level of this phase. -/
theorem filter_phase_shown_congr
    {phase : Phase}
    (h : other.levelFor phase = config.levelFor phase)
    (events : List Event) :
    (other.shown events).filter (·.phase = phase) =
      (config.shown events).filter (·.phase = phase) := by
  rw [shown_eq_filter, shown_eq_filter, List.filter_filter, List.filter_filter]
  refine List.filter_congr fun e _ => ?_
  by_cases hphase : e.phase = phase
  · rw [hphase, h]
  · simp [hphase]

/-- Lower thresholds only add events. -/
theorem shown_sublist_shown
    (h : ∀ phase, (config.levelFor phase).passes (other.levelFor phase) = true)
    (events : List Event) :
    (config.shown events).Sublist (other.shown events) := by
  rw [shown_eq_filter, shown_eq_filter]
  -- an event that passes the threshold of its phase passes the lower one
  exact List.monotone_filter_right events fun e he => Level.passes_trans he (h e.phase)

/-- What a log shows with both thresholds at the lowest level. -/
theorem shown_eq_self
    (h : ∀ phase, config.levelFor phase = .trace)
    (events : List Event) :
    config.shown events = events := by
  rw [shown_eq_filter, List.filter_eq_self]
  intro e _
  rw [h]
  exact e.level.passes_trace

end Config

/-- **The log follows the phases.** A filter lets a level through if it is at least as severe as the
level of lexing, where the target starts as those of lexing do, and as the general level everywhere
else. So a log shows of a listing just the events that the two thresholds select among all of them;
what it shows of a phase depends on the level of this phase only; and a level that is turned down,
be it the general one or that of lexing, adds events and takes none away. -/
theorem log_follows_phases (config : Config) :
    (∀ target level, config.filter.enables target level = true ↔
      if "lamb::lexer".toList <+: target then
        (config.lexerLogLevel.getD config.logLevel).severity ≤ level.severity
      else config.logLevel.severity ≤ level.severity) ∧
    ∀ source format sink,
      let events := (list source format sink).events
      (∀ layout, Session.log config layout events =
        (config.shown events).flatMap layout.line) ∧
      (∀ other : Config, (∀ phase, other.levelFor phase = .trace) →
        other.shown events = events) ∧
      config.shown events = events.filter (fun e =>
        if "lamb::lexer".toList <+: e.target then
          (config.lexerLogLevel.getD config.logLevel).severity ≤ e.level.severity
        else config.logLevel.severity ≤ e.level.severity) ∧
      (∀ other : Config, other.levelFor .lexer = config.levelFor .lexer →
        (other.shown events).filter ("lamb::lexer".toList <+: ·.target) =
          (config.shown events).filter ("lamb::lexer".toList <+: ·.target)) ∧
      (∀ other : Config, other.logLevel = config.logLevel →
        (other.shown events).filter (¬ "lamb::lexer".toList <+: ·.target) =
          (config.shown events).filter (¬ "lamb::lexer".toList <+: ·.target)) ∧
      (∀ level : Level, level.severity ≤ config.logLevel.severity →
        (config.shown events).Sublist
          (({ config with logLevel := level } : Config).shown events)) ∧
      (∀ level : Level, level.severity ≤ (config.levelFor .lexer).severity →
        (config.shown events).Sublist
          (({ config with lexerLogLevel := some level } : Config).shown events)) := by
  have hlevel (target : List Char) : config.levelFor (.ofTarget target) =
      if "lamb::lexer".toList <+: target then config.lexerLogLevel.getD config.logLevel
      else config.logLevel := by
    split_ifs with h
    · rw [(Phase.ofTarget_eq_lexer_iff target).mpr h]
      rfl
    · rw [(Phase.ofTarget_eq_cli_iff target).mpr h]
      rfl
  refine ⟨?_, fun source format sink => ⟨fun _ => rfl, ?_, ?_, ?_, ?_, ?_, ?_⟩⟩
  · intro target level
    rw [Config.enables_eq_passes, hlevel, Level.passes_iff]
    split_ifs <;> rfl
  · intro other hother
    exact Config.shown_eq_self hother _
  · rw [Config.shown_eq_filter]
    refine List.filter_congr fun e _ => ?_
    rw [Event.phase, hlevel, Level.passes]
    split_ifs <;> rfl
  · intro other hlexer
    have h := Config.filter_phase_shown_congr hlexer (list source format sink).events
    simpa only [Event.phase, Phase.ofTarget_eq_lexer_iff] using h
  · intro other hgeneral
    have hcli : other.levelFor .cli = config.levelFor .cli := hgeneral
    have h := Config.filter_phase_shown_congr hcli (list source format sink).events
    simpa only [Event.phase, Phase.ofTarget_eq_cli_iff] using h
  · intro level hle
    refine Config.shown_sublist_shown ?_ _
    rintro (_ | _)
    · -- lexing follows the general level unless it has its own
      cases hown : config.lexerLogLevel with
      | none => simpa [Config.levelFor, hown, Level.passes_iff] using hle
      | some own => simp [Config.levelFor, hown, Level.passes_iff]
    · exact Level.passes_iff.mpr hle
  · intro level hle
    refine Config.shown_sublist_shown ?_ _
    rintro (_ | _)
    · exact Level.passes_iff.mpr hle
    · exact Level.passes_iff.mpr le_rfl

end TokenStream
