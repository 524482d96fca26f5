import Exo.Egress.Credentials

/-!
# Where credentials travel

A credential goes to the destinations its binding permits and to no others, in headers that are
checked.  That the placeholders of a header are replaced as if all at once does not follow from the
check, nor from the credentials being free of placeholders: it needs that nothing new is put together
at the edges of what is deleted or put in.
-/

namespace Exo.Egress

open Library Storage List

variable {lib : Libraries}

/-! ## Placeholders -/

/-- The placeholders that may be replaced in a request, in the order of the bindings. -/
def permittedPlaceholders (lib : Libraries) (bindings : List Binding)
    (destination : EgressDestination) : List Bytes :=
  (bindings.filter (·.permitsHeader lib destination)).map (·.placeholder)

def placeholderLength : ℕ := placeholderPrefix.length + 32

variable {placeholders : Option (List (String × Bytes))} {text : Bytes} {rewrites : List Rewrite}

theorem choosePlaceholder_length {uuid : Fin (2 ^ 128)} {values : List Bytes} {name : String}
    {placeholder : Bytes}
    (hchosen : choosePlaceholder uuid placeholders values name = .ok placeholder) :
    placeholder.length = placeholderLength := by
  cases placeholders with
  | none =>
    rw [choosePlaceholder, pure_eq_ok] at hchosen
    rw [← hchosen, length_append, simple, length_map, length_paddedHex, placeholderLength]
  | some placeholders =>
    simp only [choosePlaceholder, bind_eq_ok, ensure_eq_ok, pure_eq_ok] at hchosen
    obtain ⟨value, _, _, hvalid, rfl⟩ := hchosen
    simp only [Bool.and_eq_true, beq_iff_eq] at hvalid
    exact hvalid.1.1.1

variable {uuid : ℕ → Fin (2 ^ 128)} {credentials : List EgressCredentialBinding}
  {replacement : Bytes} {calls : List Call} {old new : Header}

theorem prepareFrom_length {seen : List String} {values : List Bytes} {bindings : List Binding}
    (hprepared : prepareFrom lib uuid placeholders seen values credentials = .ok bindings) :
    ∀ binding ∈ bindings, binding.placeholder.length = placeholderLength := by
  induction credentials generalizing seen values bindings with
  | nil =>
    rw [prepareFrom, pure_eq_ok] at hprepared
    simp [← hprepared]
  | cons config rest ih =>
    simp only [prepareFrom, bind_eq_ok, ensure_eq_ok, pure_eq_ok] at hprepared
    obtain ⟨_, _, _, _, _, _, _, _, _, _, placeholder, hchosen, later, hlater, rfl⟩ := hprepared
    intro binding hbinding
    rcases mem_cons.1 hbinding with rfl | hmem
    · exact choosePlaceholder_length hchosen
    · exact ih hlater binding hmem

theorem permittedPlaceholders_length {bindings : List Binding}
    (hprepared : prepareBindings lib uuid credentials placeholders = .ok bindings)
    (destination : EgressDestination) :
    ∀ word ∈ permittedPlaceholders lib bindings destination, word.length = placeholderLength := by
  intro word hword
  obtain ⟨binding, hbinding, rfl⟩ := mem_map.1 hword
  exact prepareFrom_length hprepared binding (mem_of_mem_filter hbinding)

/-! ## The check -/

/-- The text of a header in which placeholders are looked for, if it holds one. -/
def credentialText (lib : Libraries) (header : Header) : Option Bytes :=
  match basicDecoded lib header with
  | some decoded => some decoded
  | none => if containsPlaceholder header.value then some header.value else none

theorem containsPlaceholder_eq_true {value : Bytes} :
    containsPlaceholder value = true ↔ placeholderPrefix <:+: value := by
  rw [containsPlaceholder, decide_eq_true_iff]

theorem containsPlaceholder_of_basicDecoded {header : Header} {decoded : Bytes}
    (hdecoded : basicDecoded lib header = some decoded) : containsPlaceholder decoded = true := by
  simp only [basicDecoded, Option.bind_eq_bind, Option.bind_eq_some_iff, Option.guard_eq_some',
    Option.pure_def, Option.some.injEq] at hdecoded
  obtain ⟨_, _, _, _, _, _, _, _, _, hcontains, rfl⟩ := hdecoded
  exact hcontains

theorem credentialText_eq_some {header : Header} : credentialText lib header = some text ↔
      (basicDecoded lib header).getD header.value = text ∧ containsPlaceholder text = true := by
  cases hdecoded : basicDecoded lib header with
  | none =>
    simp only [credentialText, hdecoded, Option.getD_none]
    constructor
    · intro heq
      split at heq <;> cases heq
      rename_i hcontains
      exact ⟨rfl, hcontains⟩
    · intro ⟨heq, hcontains⟩
      rw [heq, if_pos hcontains]
  | some decoded =>
    have hcontains := containsPlaceholder_of_basicDecoded hdecoded
    simp only [credentialText, hdecoded, Option.getD_some, Option.some.injEq]
    constructor
    · intro heq
      exact ⟨heq, heq ▸ hcontains⟩
    · intro heq
      exact heq.1

theorem credentialText_eq_none {header : Header} : credentialText lib header = none ↔
      basicDecoded lib header = none ∧ containsPlaceholder header.value = false := by
  cases hdecoded : basicDecoded lib header with
  | none => simp [credentialText, hdecoded]
  | some decoded => simp [credentialText, hdecoded]

theorem basicCredentialPlaceholder_eq_ok {header : Header} {basic : Option Bytes}
    (hbasic : basicCredentialPlaceholder lib header = .ok basic) :
    basic = basicDecoded lib header := by
  rw [basicCredentialPlaceholder] at hbasic
  cases hdecoded : basicDecoded lib header with
  | none =>
    simp only [hdecoded, pure_eq_ok] at hbasic
    exact hbasic.symm
  | some decoded =>
    simp only [hdecoded, bind_eq_ok, pure_eq_ok] at hbasic
    obtain ⟨_, _, hsome⟩ := hbasic
    exact hsome.symm

section
variable (lib : Libraries) (bindings : List Binding)

theorem foldl_delete (destination : EgressDestination)
    (text : Bytes) :
    bindings.foldl (fun text binding ↦
        if binding.permitsHeader lib destination then replaceAll binding.placeholder [] text
        else text) text =
      replaceEach ((permittedPlaceholders lib bindings destination).map (·, [])) text := by
  induction bindings generalizing text with
  | nil => rfl
  | cons binding rest ih =>
    rw [foldl_cons, ih, permittedPlaceholders, permittedPlaceholders, filter_cons]
    by_cases hpermits : binding.permitsHeader lib destination = true
    · rw [if_pos hpermits, if_pos hpermits]
      rfl
    · rw [if_neg hpermits, if_neg hpermits]

/-- What is known of a header with a placeholder that has passed the check. -/
structure Validated (headers : List Header)
    (destination : EgressDestination) (tls : Bool) (header : Header) (text : Bytes) : Prop where
  tls : tls = true
  routing : hopHeader header.name = false ∧ header.name ≠ "host" ∧ header.name ≠ "content-length"
  once : headers.countP (·.name == header.name) = 1
  deleted : ¬ placeholderPrefix <:+:
    replaceEach ((permittedPlaceholders lib bindings destination).map (·, [])) text

end

theorem validated_of_validateHeader {bindings : List Binding} {headers : List Header}
    {destination : EgressDestination} {tls : Bool} {header : Header}
    (hvalid : validateHeader lib bindings headers destination tls header = .ok ())
    (htext : credentialText lib header = some text) :
    Validated lib bindings headers destination tls header text := by
  rw [validateHeader, bind_eq_ok] at hvalid
  obtain ⟨basic, hbasic, hchecks⟩ := hvalid
  obtain ⟨heq, hcontains⟩ := credentialText_eq_some.1 htext
  rw [basicCredentialPlaceholder_eq_ok hbasic, heq] at hchecks
  simp only [hcontains, Bool.not_true, Bool.false_eq_true, if_false, bind_eq_ok, ensure_eq_ok,
    foldl_delete] at hchecks
  obtain ⟨_, htls, _, hrouting, _, honce, _, _, hdeleted⟩ := hchecks
  simp only [Bool.and_eq_true, Bool.not_eq_true', bne_iff_ne, ne_eq] at hrouting
  exact
    { tls := htls
      routing := ⟨hrouting.1.1, hrouting.1.2, hrouting.2⟩
      once := beq_iff_eq.1 honce
      deleted := by
        intro hoccurs
        rw [containsPlaceholder_eq_true.2 hoccurs] at hdeleted
        exact Bool.false_ne_true hdeleted }

/-! ## The substitution -/

/-- The values put in, by placeholder. -/
def Rewrite.values (rewrite : Rewrite) : List (Bytes × Bytes) :=
  rewrite.calls.map fun call ↦ (call.binding.placeholder, call.value)

/-- The loop over the bindings looks for the permitted placeholders in turn. -/
theorem replaces_of_fillBindings {destination : EgressDestination} {resolver : Resolver} {n : ℕ}
    {bindings : List Binding}
    (hfill : fillBindings lib destination resolver n bindings text = .ok (calls, replacement)) :
    Replaces (permittedPlaceholders lib bindings destination) text
      (calls.map fun call ↦ (call.binding.placeholder, call.value)) replacement := by
  induction bindings generalizing n text calls with
  | nil =>
    rw [fillBindings, pure_eq_ok] at hfill
    cases hfill
    exact Replaces.done
  | cons binding rest ih =>
    rw [permittedPlaceholders, filter_cons]
    rw [fillBindings] at hfill
    by_cases hpermits : binding.permitsHeader lib destination = true
    · rw [if_pos hpermits, map_cons, ← permittedPlaceholders]
      by_cases hfound : binding.placeholder <:+: text
      · simp only [hpermits, hfound, decide_true, Bool.not_true, Bool.or_self, Bool.false_eq_true,
          if_false, bind_eq_ok, pure_eq_ok] at hfill
        obtain ⟨value, _, ⟨later, result⟩, hlater, heq⟩ := hfill
        cases heq
        exact Replaces.found hfound (ih hlater)
      · simp only [hfound, decide_false, Bool.not_false, Bool.or_true, if_true] at hfill
        exact Replaces.absent hfound (ih hfill)
    · rw [if_neg hpermits, ← permittedPlaceholders]
      simp only [hpermits, Bool.not_false, Bool.true_or, if_true] at hfill
      exact ih hfill

/-- The resolver has been asked for the binding, by its name, and has given the value. -/
def Call.AnsweredBy (resolver : Resolver) (call : Call) : Prop :=
  ∃ n, resolver n call.binding.config.name = some call.value

/-- The calls are for permitted bindings, and their values what the resolver gave for these. -/
theorem permitted_of_fillBindings {destination : EgressDestination} {resolver : Resolver} {n : ℕ}
    {bindings : List Binding}
    (hfill : fillBindings lib destination resolver n bindings text = .ok (calls, replacement)) :
    ∀ call ∈ calls, call.binding ∈ bindings ∧ call.binding.permitsHeader lib destination ∧
      call.AnsweredBy resolver := by
  induction bindings generalizing n text calls with
  | nil =>
    rw [fillBindings, pure_eq_ok] at hfill
    cases hfill
    simp
  | cons binding rest ih =>
    have hrest {calls : List Call} (hcalls : ∀ call ∈ calls, call.binding ∈ rest ∧
        call.binding.permitsHeader lib destination ∧ call.AnsweredBy resolver) : ∀ call ∈ calls,
        call.binding ∈ binding :: rest ∧ call.binding.permitsHeader lib destination ∧
          call.AnsweredBy resolver :=
      fun call hcall ↦ ⟨mem_cons_of_mem _ (hcalls call hcall).1, (hcalls call hcall).2⟩
    rw [fillBindings] at hfill
    split at hfill
    · exact hrest (ih hfill)
    · rename_i hcondition
      simp only [bind_eq_ok, pure_eq_ok] at hfill
      obtain ⟨value, hvalue, ⟨later, result⟩, hlater, heq⟩ := hfill
      cases heq
      rw [forall_mem_cons]
      refine ⟨⟨mem_cons_self, ?_, n, context_eq_ok.1 hvalue⟩, hrest (ih hlater)⟩
      by_contra hnot
      simp [hnot] at hcondition

/-- What a rewritten header shows of the loop that rewrote it. -/
structure Rewritten (lib : Libraries) (bindings : List Binding) (resolver : Option Resolver)
    (destination : EgressDestination) (rewrite : Rewrite) : Prop where
  text : credentialText lib rewrite.header = some rewrite.text
  permitted : ∀ call ∈ rewrite.calls, call.binding ∈ bindings ∧
    call.binding.permitsHeader lib destination ∧ ∃ asked ∈ resolver, call.AnsweredBy asked
  replaces : Replaces (permittedPlaceholders lib bindings destination) rewrite.text rewrite.values
    rewrite.replacement

variable {bindings : List Binding} {destination : EgressDestination} {resolver : Resolver} {n : ℕ}
  {header : Header}

theorem credentialText_of_substituteHeader
    (hround : substituteHeader lib bindings destination resolver n header = .ok none) :
    credentialText lib header = none := by
  rw [substituteHeader, bind_eq_ok] at hround
  obtain ⟨basic, hbasic, hround⟩ := hround
  rw [basicCredentialPlaceholder_eq_ok hbasic] at hround
  split at hround
  · rename_i hnone
    simpa [credentialText_eq_none] using hnone
  · simp only [bind_eq_ok, pure_eq_ok] at hround
    obtain ⟨_, _, _, _, _, _, heq⟩ := hround
    cases heq

theorem rewritten_of_substituteHeader {rewrite : Rewrite}
    (hround : substituteHeader lib bindings destination resolver n header = .ok (some rewrite)) :
    rewrite.header = header ∧ Rewritten lib bindings (some resolver) destination rewrite := by
  rw [substituteHeader, bind_eq_ok] at hround
  obtain ⟨basic, hbasic, hround⟩ := hround
  rw [basicCredentialPlaceholder_eq_ok hbasic] at hround
  split at hround
  · rw [pure_eq_ok] at hround
    cases hround
  · rename_i hsome
    simp only [bind_eq_ok, pure_eq_ok] at hround
    obtain ⟨_, _, ⟨calls, replacement⟩, hfill, _, _, heq⟩ := hround
    cases heq
    refine ⟨rfl, ?_, fun call hcall ↦ ?_, replaces_of_fillBindings hfill⟩
    rotate_left
    · obtain ⟨hbinding, hpermits, hanswer⟩ := permitted_of_fillBindings hfill call hcall
      exact ⟨hbinding, hpermits, resolver, rfl, hanswer⟩
    rw [credentialText_eq_some]
    refine ⟨rfl, ?_⟩
    cases hdecoded : basicDecoded lib header with
    | none => simpa [hdecoded] using hsome
    | some decoded => exact containsPlaceholder_of_basicDecoded hdecoded

/-- What becomes of a header: one without a placeholder stays as it is. -/
def Forwards (lib : Libraries) (rewrites : List Rewrite) (old new : Header) : Prop :=
  match credentialText lib old with
  | none => new = old
  | some _ => ∃ rewrite ∈ rewrites,
    rewrite.header = old ∧ new = { old with value := rewrite.value lib }

theorem Forwards.name_eq (hforwards : Forwards lib rewrites old new) : new.name = old.name := by
  rw [Forwards] at hforwards
  split at hforwards
  · rw [hforwards]
  · obtain ⟨rewrite, _, _, rfl⟩ := hforwards
    rfl

theorem Forwards.cons (rewrite : Rewrite) (hforwards : Forwards lib rewrites old new) :
    Forwards lib (rewrite :: rewrites) old new := by
  rw [Forwards] at hforwards ⊢
  split
  · rename_i hnone
    rwa [hnone] at hforwards
  · rename_i hsome
    rw [hsome] at hforwards
    obtain ⟨other, hother, hshape⟩ := hforwards
    exact ⟨other, mem_cons_of_mem _ hother, hshape⟩

theorem forwards_of_substituteCredentials {headers new : List Header}
    (hsubstitute : substituteCredentials lib bindings destination resolver n headers =
      .ok (new, rewrites)) :
    List.Forall₂ (Forwards lib rewrites) headers new ∧
      ∀ rewrite ∈ rewrites, rewrite.header ∈ headers ∧
        Rewritten lib bindings (some resolver) destination rewrite := by
  induction headers generalizing n new rewrites with
  | nil =>
    rw [substituteCredentials, pure_eq_ok] at hsubstitute
    cases hsubstitute
    simp
  | cons header rest ih =>
    rw [substituteCredentials, bind_eq_ok] at hsubstitute
    obtain ⟨round, hround, hsubstitute⟩ := hsubstitute
    cases round with
    | none =>
      simp only [bind_eq_ok, pure_eq_ok] at hsubstitute
      obtain ⟨⟨later, others⟩, hlater, heq⟩ := hsubstitute
      cases heq
      obtain ⟨hforwards, hrewrites⟩ := ih hlater
      have hnone := credentialText_of_substituteHeader hround
      refine ⟨List.Forall₂.cons (by rw [Forwards, hnone]) hforwards, ?_⟩
      intro rewrite hrewrite
      obtain ⟨hmem, hrewritten⟩ := hrewrites rewrite hrewrite
      exact ⟨mem_cons_of_mem _ hmem, hrewritten⟩
    | some rewrite =>
      simp only [bind_eq_ok, pure_eq_ok] at hsubstitute
      obtain ⟨⟨later, others⟩, hlater, heq⟩ := hsubstitute
      cases heq
      obtain ⟨hforwards, hrewrites⟩ := ih hlater
      obtain ⟨hheader, hrewritten⟩ := rewritten_of_substituteHeader hround
      constructor
      · refine List.Forall₂.cons ?_ (hforwards.imp fun _ _ ↦ Forwards.cons rewrite)
        rw [Forwards, ← hheader, hrewritten.text]
        exact ⟨rewrite, mem_cons_self, rfl, rfl⟩
      · rw [forall_mem_cons]
        refine ⟨⟨hheader ▸ mem_cons_self, hrewritten⟩, ?_⟩
        intro other hother
        obtain ⟨hmem, hrewritten⟩ := hrewrites other hother
        exact ⟨mem_cons_of_mem _ hmem, hrewritten⟩

/-! ## Requests that are sent -/

variable {world : World} {headers stripped : List Header} {tls : Bool}

theorem mem_of_stripHopHeaders (hstrip : stripHopHeaders lib headers = .ok stripped) :
    ∀ header ∈ stripped, header ∈ headers := by
  simp only [stripHopHeaders, bind_eq_ok, pure_eq_ok] at hstrip
  obtain ⟨_, _, rfl⟩ := hstrip
  intro header hheader
  exact mem_of_mem_filter hheader

section
variable (hvalid : validateCredentials lib bindings headers destination tls = .ok ())
include hvalid

theorem validated_of_validateCredentials (hheader : header ∈ headers)
    (htext : credentialText lib header = some text) :
    Validated lib bindings headers destination tls header text := by
  rw [validateCredentials, forM_eq_ok] at hvalid
  exact validated_of_validateHeader (hvalid header hheader) htext

theorem forwards_of_substituteFor {new : List Header}
    (hstripped : ∀ header ∈ stripped, header ∈ headers)
    (hsubstitute : substituteFor lib bindings world.resolver destination n stripped =
      .ok (new, rewrites)) :
    List.Forall₂ (Forwards lib rewrites) stripped new ∧
      ∀ rewrite ∈ rewrites, rewrite.header ∈ stripped ∧
        Rewritten lib bindings world.resolver destination rewrite := by
  rw [substituteFor] at hsubstitute
  split at hsubstitute
  · -- Without bindings the check has refused every placeholder.
    rename_i hempty
    rw [pure_eq_ok] at hsubstitute
    cases hsubstitute
    refine ⟨forall₂_same.2 ?_, by simp⟩
    intro header hheader
    rw [Forwards]
    split
    · rfl
    · rename_i text htext
      have hvalidated := validated_of_validateCredentials hvalid (hstripped header hheader) htext
      have hcontains := (credentialText_eq_some.1 htext).2
      rw [isEmpty_iff.1 hempty] at hvalidated
      exact absurd (containsPlaceholder_eq_true.1 hcontains) hvalidated.deleted
  · rw [bind_eq_ok] at hsubstitute
    obtain ⟨resolver, hresolver, hsubstitute⟩ := hsubstitute
    rw [context_eq_ok.1 hresolver]
    exact forwards_of_substituteCredentials hsubstitute

/-- The headers of a request, and where each of its rewritten ones came from. -/
theorem forwards_of_attempt {sent : Sent} (hstripped : ∀ header ∈ stripped, header ∈ headers)
    (hattempt : attempt lib bindings world destination n stripped = .ok sent) :
    List.Forall₂ (Forwards lib sent.rewrites) (relayHeaders stripped) sent.headers ∧
      ∀ rewrite ∈ sent.rewrites, rewrite.header ∈ stripped ∧
        Rewritten lib bindings world.resolver destination rewrite := by
  simp only [attempt, bind_eq_ok, pure_eq_ok] at hattempt
  obtain ⟨⟨new, rewrites⟩, hsubstitute, rfl⟩ := hattempt
  obtain ⟨hforwards, hrewrites⟩ := forwards_of_substituteFor hvalid hstripped hsubstitute
  refine ⟨?_, hrewrites⟩
  apply rel_filter _ hforwards
  intro old new hforward
  simp only [hforward.name_eq]

end

/-- Every request of a forwarded one is an attempt at the stripped headers, after the check. -/
theorem attempt_of_forwardTo {requests : List Sent} {sent : Sent}
    (hforward : forwardTo lib bindings world headers destination tls = .ok requests)
    (hsent : sent ∈ requests) :
    validateCredentials lib bindings headers destination tls = .ok () ∧
      ∃ stripped n, stripHopHeaders lib headers = .ok stripped ∧
        attempt lib bindings world destination n stripped = .ok sent := by
  simp only [forwardTo, bind_eq_ok] at hforward
  obtain ⟨_, hvalid, stripped, hstrip, _, _, first, hfirst, _, _, hforward⟩ := hforward
  refine ⟨hvalid, stripped, ?_⟩
  split at hforward
  · rw [pure_eq_ok] at hforward
    rw [← hforward, mem_singleton] at hsent
    exact ⟨0, hstrip, hsent ▸ hfirst⟩
  · rename_i second hretry
    rw [pure_eq_ok] at hforward
    rw [← hforward, mem_cons, mem_singleton] at hsent
    simp only [retry, bind_eq_ok] at hretry
    obtain ⟨_, _, _, _, _, _, _, _, hsecond⟩ := hretry
    rcases hsent with rfl | rfl
    · exact ⟨0, hstrip, hfirst⟩
    · exact ⟨_, hstrip, hsecond⟩

/-- No two placeholders overlap, deleting one puts no other together, and no value is part of a
placeholder, or of the beginning of one, where it is put. -/
def Separate (words : List Bytes) (rewrite : Rewrite) : Prop :=
  NoOverlap words rewrite.text ∧
    Seamless words (scan words rewrite.text) [] (words.map (·, [])) ∧
    Seamless (List.cons placeholderPrefix words) (scan words rewrite.text) [] rewrite.values

instance (words : List Bytes) (rewrite : Rewrite) : Decidable (Separate words rewrite) :=
  inferInstanceAs (Decidable (_ ∧ _))

/-- Credentials are resolved for bindings that permit the destination only, each by the name of its
binding, over TLS, and put into headers that occur once and have no part in routing or framing; all
other headers are passed on as they are.  As long as values and placeholders keep apart, the
placeholders replaced are those of the header, all at once, and none is left. -/
theorem credentials_travel_as_permitted (lib : Libraries) (uuid : ℕ → Fin (2 ^ 128))
    (credentials : List EgressCredentialBinding) (placeholders : Option (List (String × Bytes)))
    (bindings : List Binding)
    (hprepared : prepareBindings lib uuid credentials placeholders = .ok bindings)
    (world : World) (headers : List Header) (destination : EgressDestination) (tls : Bool)
    (requests : List Sent)
    (hforward : forwardTo lib bindings world headers destination tls = .ok requests) :
    ∀ sent ∈ requests,
      (∀ rewrite ∈ sent.rewrites,
        tls = true ∧ rewrite.header ∈ headers ∧
          credentialText lib rewrite.header = some rewrite.text ∧
          hopHeader rewrite.header.name = false ∧ rewrite.header.name ≠ "host" ∧
          rewrite.header.name ≠ "content-length" ∧
          headers.countP (·.name == rewrite.header.name) = 1 ∧
          (∀ call ∈ rewrite.calls,
            call.binding ∈ bindings ∧ call.binding.permitsHeader lib destination ∧
              ∃ asked ∈ world.resolver, call.AnsweredBy asked) ∧
          (Separate (permittedPlaceholders lib bindings destination) rewrite →
            (∀ call ∈ rewrite.calls, call.binding.placeholder <:+: rewrite.text) ∧
              rewrite.replacement = render rewrite.values
                (scan (permittedPlaceholders lib bindings destination) rewrite.text) ∧
              ¬ placeholderPrefix <:+: rewrite.replacement)) ∧
      ∃ stripped, stripHopHeaders lib headers = .ok stripped ∧
        List.Forall₂ (Forwards lib sent.rewrites) (relayHeaders stripped) sent.headers := by
  intro sent hsent
  obtain ⟨hvalid, stripped, n, hstrip, hattempt⟩ := attempt_of_forwardTo hforward hsent
  have hstripped := mem_of_stripHopHeaders hstrip
  obtain ⟨hforwards, hrewrites⟩ := forwards_of_attempt hvalid hstripped hattempt
  refine ⟨?_, stripped, hstrip, hforwards⟩
  intro rewrite hrewrite
  obtain ⟨hmem, hrewritten⟩ := hrewrites rewrite hrewrite
  have hheader := hstripped _ hmem
  have hchecked := validated_of_validateCredentials hvalid hheader hrewritten.text
  refine ⟨hchecked.tls, hheader, hrewritten.text, hchecked.routing.1, hchecked.routing.2.1,
    hchecked.routing.2.2, hchecked.once, hrewritten.permitted, ?_⟩
  intro ⟨hoverlap, hdeletions, hvalues⟩
  have hpos : 0 < placeholderLength := by decide
  have hlength := permittedPlaceholders_length hprepared destination
  have htouched := touched_of_deleted hpos hlength hoverlap hdeletions hchecked.deleted
  obtain ⟨hreplacement, hcalls, hnone⟩ :=
    hrewritten.replaces.simultaneous hpos hlength hoverlap htouched hvalues
  refine ⟨?_, hreplacement, hnone⟩
  intro call hcall
  exact hcalls _ (mem_map_of_mem hcall)

/-! ## Requests to `api.example` -/

def apiUrl : Url :=
  { scheme := "https", host := some (.domain "api.example"), hostStr := some "api.example",
    port := some 443, path := "/v1", origin := "https://api.example",
    text := "https://api.example/v1" }

/-- The libraries, as far as the requests below reach them. -/
def apiLibraries : Libraries where
  parseUrl text :=
    if text == "https://api.example:443/v1" || text == apiUrl.text then some apiUrl else none
  toStr value := value.all fun byte ↦ 32 ≤ byte && byte < 127 || byte == 9
  fromStr value := value.all fun byte ↦ 32 ≤ byte && byte != 127 || byte == 9
  headerName _ := none
  encode value := if value == bytesOf "user:alpha" then bytesOf "dXNlcjphbHBoYQ==" else []
  decode value :=
    if value == bytesOf "dXNlcjpleG9fZWdyZXNzXzAwMDAwMDAwMDAwMDAwMDAwMDAwMDAwMDAwMDAwMDAw" then
      some (bytesOf "user:exo_egress_00000000000000000000000000000000")
    else none

def apiDestination : EgressDestination := ⟨"api.example", 443, "POST", "/v1"⟩

/-- The third one may not be put into headers. -/
def apiCredentials : List EgressCredentialBinding :=
  [⟨"first", "FIRST", .limited ["api.example"], true⟩,
    ⟨"second", "SECOND", .limited ["api.example"], true⟩,
    ⟨"third", "THIRD", .limited ["api.example"], false⟩]

def firstPlaceholder : Bytes := bytesOf "exo_egress_00000000000000000000000000000000"
def secondPlaceholder : Bytes := bytesOf "exo_egress_111111111111111111111111111111de"
def thirdPlaceholder : Bytes := bytesOf "exo_egress_22222222222222222222222222222222"

def apiPlaceholders : List (String × Bytes) :=
  [("FIRST", firstPlaceholder), ("SECOND", secondPlaceholder), ("THIRD", thirdPlaceholder)]

/-- A resolver with the given value for the first credential. -/
def apiWorld (first : String) : World where
  resolver := some fun _ name ↦ some (bytesOf (if name == "first" then first else "beta"))
  client := .ok ()
  body := .ok ()
  status := .ok 200
  refresh _ := .ok false

def apiBindings : List Binding :=
  List.zipWith (fun config placeholder ↦ ⟨config, ["api.example"], placeholder⟩) apiCredentials
    [firstPlaceholder, secondPlaceholder, thirdPlaceholder]

def apiRequests (first : String) (headers : List Header) : List Sent :=
  (forwardTo apiLibraries apiBindings (apiWorld first) headers apiDestination true).toOption.getD []

/-- Basic authorization, two placeholders in one header, and a header without any. -/
def plainHeaders : List Header :=
  [⟨"authorization",
      bytesOf "Basic dXNlcjpleG9fZWdyZXNzXzAwMDAwMDAwMDAwMDAwMDAwMDAwMDAwMDAwMDAwMDAw"⟩,
    ⟨"accept", bytesOf "*/*"⟩,
    ⟨"x-key", firstPlaceholder ++ bytesOf "-" ++ secondPlaceholder⟩]

theorem credentials_travel_as_permitted_plain :
    prepareBindings apiLibraries (fun _ ↦ 0) apiCredentials (some apiPlaceholders) =
        .ok apiBindings ∧
      forwardTo apiLibraries apiBindings (apiWorld "alpha") plainHeaders apiDestination true =
        .ok (apiRequests "alpha" plainHeaders) ∧
      (∃ sent ∈ apiRequests "alpha" plainHeaders, sent.rewrites.length = 2) ∧
      ∀ sent ∈ apiRequests "alpha" plainHeaders, ∀ rewrite ∈ sent.rewrites,
        Separate (permittedPlaceholders apiLibraries apiBindings apiDestination) rewrite ∧
          ¬ placeholderPrefix <:+: rewrite.replacement := by
  obtain ⟨hprepared, hforward, hrewrites, hseparate⟩ :
      (prepareBindings apiLibraries (fun _ ↦ 0) apiCredentials (some apiPlaceholders)).toOption =
          some apiBindings ∧
        (forwardTo apiLibraries apiBindings (apiWorld "alpha") plainHeaders apiDestination
          true).toOption = some (apiRequests "alpha" plainHeaders) ∧
        (∃ sent ∈ apiRequests "alpha" plainHeaders, sent.rewrites.length = 2) ∧
        ∀ sent ∈ apiRequests "alpha" plainHeaders, ∀ rewrite ∈ sent.rewrites,
          Separate (permittedPlaceholders apiLibraries apiBindings apiDestination) rewrite := by
    decide +kernel
  replace hprepared := eq_ok_of_toOption hprepared
  replace hforward := eq_ok_of_toOption hforward
  refine ⟨hprepared, hforward, hrewrites, ?_⟩
  intro sent hsent rewrite hrewrite
  have hspec := credentials_travel_as_permitted apiLibraries _ _ _ _ hprepared _ _ _ _ _ hforward
    sent hsent
  obtain ⟨_, _, _, _, _, _, _, _, hreplaced⟩ := hspec.1 rewrite hrewrite
  have hkept := hseparate sent hsent rewrite hrewrite
  exact ⟨hkept, (hreplaced hkept).2.2⟩

/-- The value `e` of the first credential makes the placeholder of the second one out of what follows
it in the header. -/
def joiningHeaders : List Header :=
  [⟨"x-key", firstPlaceholder ++ bytesOf "xo_egress_111111111111111111111111111111de"⟩]

/-- Deleting the first placeholder makes the second one, whose last digit is the first letter of the
third; with it the check loses the third placeholder. -/
def maskingHeaders : List Header :=
  [⟨"x-key", bytesOf "exo_egress_111111111111111111111111111111" ++ firstPlaceholder ++ bytesOf "d" ++
    thirdPlaceholder⟩]

/-- No value contains the prefix and no placeholders overlap; still a credential is resolved whose
placeholder is in no header, and in the other request a placeholder is left. -/
theorem joined_placeholders :
    prepareBindings apiLibraries (fun _ ↦ 0) apiCredentials (some apiPlaceholders) =
        .ok apiBindings ∧
      forwardTo apiLibraries apiBindings (apiWorld "e") joiningHeaders apiDestination true =
        .ok (apiRequests "e" joiningHeaders) ∧
      (∃ sent ∈ apiRequests "e" joiningHeaders, ∃ rewrite ∈ sent.rewrites,
        NoOverlap (apiBindings.map (·.placeholder)) rewrite.text ∧
        (∀ call ∈ rewrite.calls, ¬ placeholderPrefix <:+: call.value) ∧
        ∃ call ∈ rewrite.calls, ∀ header ∈ joiningHeaders,
          ∀ text ∈ credentialText apiLibraries header, ¬ call.binding.placeholder <:+: text) ∧
      forwardTo apiLibraries apiBindings (apiWorld "alpha") maskingHeaders apiDestination true =
        .ok (apiRequests "alpha" maskingHeaders) ∧
      ∃ sent ∈ apiRequests "alpha" maskingHeaders, ∃ rewrite ∈ sent.rewrites,
        NoOverlap (apiBindings.map (·.placeholder)) rewrite.text ∧
        (∀ call ∈ rewrite.calls, ¬ placeholderPrefix <:+: call.value) ∧
        thirdPlaceholder <:+: rewrite.replacement := by
  obtain ⟨hprepared, hjoining, hmasking⟩ :
      (prepareBindings apiLibraries (fun _ ↦ 0) apiCredentials (some apiPlaceholders)).toOption =
          some apiBindings ∧
        (forwardTo apiLibraries apiBindings (apiWorld "e") joiningHeaders apiDestination
          true).toOption = some (apiRequests "e" joiningHeaders) ∧
        (forwardTo apiLibraries apiBindings (apiWorld "alpha") maskingHeaders apiDestination
          true).toOption = some (apiRequests "alpha" maskingHeaders) := by
    decide +kernel
  refine ⟨eq_ok_of_toOption hprepared, eq_ok_of_toOption hjoining, by decide +kernel,
    eq_ok_of_toOption hmasking, by decide +kernel⟩

end Exo.Egress
