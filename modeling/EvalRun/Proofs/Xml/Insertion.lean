import EvalRun.Proofs.Xml.Surroundings
import EvalRun.Proofs.Xml.Written

/-! # Proofs.Xml.Insertion — the tokens of a document with a comment put in

    Take a document in two parts, the first of which can be read on its own and
    leaves the root element open. Its tokens are read in the whole document as
    well (`OpensRoot`, `Reads.complete_or_breaksOff`), but for character data at its
    end, which may go on in the second part.

    A comment between the parts is one token more. It ends the character data
    before it, begins it anew behind it, and shifts all other tokens of the second
    part (`Reads.commented`, `documentTokens_commented`).
-/

namespace EvalRun.Xml

/-! ### Character data -/

/-- The characters may stand as character data. -/
structure IsCharData (cs : List Char) : Prop where
  noAngle : ∀ ch ∈ cs, ch ≠ '<'
  chars : cs.all isXmlChar = true
  noSectionEnd : Scan.splitBefore [']', ']', '>'] cs = none

/-- Character data ends here: at markup, or at the end. -/
def EndsText (rest : List Char) : Prop := ∀ ch ∈ rest.head?, ch = '<'

/-- The token of character data, if there is any. -/
def textTokens (cs : List Char) : List Token := if cs = [] then [] else [.text cs]

namespace Scan

/-- A text without a word has none in its second part. -/
theorem splitBefore_right {word cs behind : List Char}
    (h : splitBefore word (cs ++ behind) = none) : splitBefore word behind = none := by
  induction cs with
  | nil => exact h
  | cons ch rest ih =>
    rw [List.cons_append, splitBefore] at h
    split at h
    · cases h
    · exact ih (Option.map_eq_none_iff.1 h)

end Scan

theorem IsCharData.right {cs cs' : List Char} (h : IsCharData (cs ++ cs')) : IsCharData cs' := by
  obtain ⟨hangle, hchars, hend⟩ := h
  rw [List.all_append, Bool.and_eq_true] at hchars
  exact ⟨fun ch hch => hangle ch (List.mem_append_right _ hch), hchars.2,
    Scan.splitBefore_right hend⟩

namespace Scan

/-- Character data is read up to its end. -/
theorem text_append {cs rest : List Char} {place : Nat} (hcs : IsCharData cs)
    (hrest : EndsText rest) :
    text ⟨cs ++ rest, place⟩ = some (.text cs, ⟨rest, place + cs.length⟩) := by
  have htake : rest.takeWhile (· ≠ '<') = [] ∧ rest.dropWhile (· ≠ '<') = rest := by
    cases rest with
    | nil => simp
    | cons ch rest => simp [hrest ch rfl]
  have hangle : ∀ ch ∈ cs, (decide (ch ≠ '<')) = true := fun ch hch =>
    decide_eq_true (hcs.noAngle ch hch)
  have htaken : takeWhile (· ≠ '<') ⟨cs ++ rest, place⟩ =
      some (cs, ⟨rest, place + cs.length⟩) := by
    unfold takeWhile
    rw [List.takeWhile_append_of_pos hangle, List.dropWhile_append_of_pos hangle, htake.1, htake.2,
      List.append_nil]
  have hchars : takeChars (· ≠ '<') ⟨cs ++ rest, place⟩ =
      some (cs, ⟨rest, place + cs.length⟩) := by
    refine bind_eq_some_iff.2 ⟨cs, _, htaken, ?_⟩
    rw [if_pos hcs.chars]
    refine bind_eq_some_iff.2 ⟨rest.head?, _, rfl, ?_⟩
    cases rest with
    | nil => rfl
    | cons ch rest =>
      obtain rfl := hrest ch rfl
      rfl
  refine bind_eq_some_iff.2 ⟨cs, _, hchars, ?_⟩
  simp only [hcs.noSectionEnd]
  rfl

/-- Character data that is read. -/
theorem text_eq_some {t : Token} {c c' : Cursor} (h : text c = some (t, c')) :
    ∃ cs, t = .text cs ∧ IsCharData cs ∧ EndsText c'.rest ∧ c.rest = cs ++ c'.rest ∧
      c'.offset = c.offset + cs.length := by
  obtain ⟨cs, c₁, hchars, h⟩ := bind_eq_some_iff.1 h
  obtain ⟨taken, c₂, htaken, hchars⟩ := bind_eq_some_iff.1 hchars
  obtain ⟨rfl, rfl⟩ := Prod.mk.inj (Option.some.inj htaken)
  have hangle : ∀ ch ∈ c.rest.takeWhile (· ≠ '<'), ch ≠ '<' := fun ch hch =>
    of_decide_eq_true (List.all_eq_true.1 List.all_takeWhile ch hch)
  have hends : EndsText (c.rest.dropWhile (· ≠ '<')) := by
    intro ch hch
    have hstop := List.head?_dropWhile_not (p := (· ≠ '<')) c.rest
    rw [Option.mem_def.1 hch] at hstop
    simpa using hstop
  -- neither the characters nor what comes next may be refused
  split at hchars
  · rename_i hall
    have hpure : (pure (c.rest.takeWhile (· ≠ '<')) : Scan (List Char))
        ⟨c.rest.dropWhile (· ≠ '<'), c.offset + (c.rest.takeWhile (· ≠ '<')).length⟩ =
        some (cs, c₁) := by
      obtain ⟨next?, c₃, hpeek, hchars⟩ := bind_eq_some_iff.1 hchars
      obtain ⟨-, rfl⟩ := Prod.mk.inj (Option.some.inj hpeek)
      cases next? with
      | none => exact hchars
      | some ch =>
        simp only at hchars
        split at hchars
        · exact hchars
        · cases hchars
    obtain ⟨rfl, rfl⟩ := pure_eq_some_iff.1 hpure
    split at h
    · obtain ⟨_, _, hrefuse, _⟩ := bind_eq_some_iff.1 h
      cases hrefuse
    · rename_i hend
      obtain ⟨rfl, rfl⟩ := pure_eq_some_iff.1 h
      refine ⟨_, rfl, ⟨hangle, hall, by simpa using hend⟩, hends, ?_, rfl⟩
      exact List.takeWhile_append_dropWhile.symm
  · cases hchars

/-- Where no markup begins, character data is read. -/
theorem contentToken_eq_text {n : Nat} {c : Cursor} (h : c.rest.head? ≠ some '<') :
    contentToken n c = text c := by
  have hlook {word : String} {rest : List Char} (hword : word.toList = '<' :: rest) :
      looksAt word c = some (false, c) := by
    unfold looksAt
    rw [hword]
    cases hrest : c.rest with
    | nil => rfl
    | cons ch more =>
      have hne : '<' ≠ ch := by
        rintro rfl
        simp [hrest] at h
      simp [List.isPrefixOf, hne]
  have hskip {word : String} {rest : List Char} (hword : word.toList = '<' :: rest)
      (m k : Scan Token) : (looksAt word >>= fun b => if b then m else k) c = k c := by
    change (looksAt word c).bind (fun r => (if r.1 then m else k) r.2) = k c
    rw [hlook hword]
    rfl
  unfold contentToken
  rw [hskip rfl, hskip rfl, hskip rfl, hskip rfl, hskip rfl]

/-- No markup is read as character data. -/
theorem head?_ne_of_contentToken {n : Nat} {c c' : Cursor} {cs : List Char}
    (h : contentToken n c = some (.text cs, c')) : c.rest.head? ≠ some '<' := by
  intro hhead
  obtain ⟨rest, hrest⟩ := List.head?_eq_some_iff.1 hhead
  have hangle : looksAt "<" c = some (true, c) := by
    unfold looksAt
    rw [hrest]
    rfl
  have hbehind {α : Type} {m : Scan α} {f : α → Token} {c₁ : Cursor}
      (hf : ∀ a, f a ≠ .text cs) : ¬ (m >>= fun a => pure (f a)) c₁ = some (.text cs, c') := by
    intro h
    obtain ⟨a, between, -, h⟩ := bind_eq_some_iff.1 h
    exact hf a (pure_eq_some_iff.1 h).1
  unfold contentToken at h
  obtain ⟨seen, c₁, hlook, h⟩ := bind_eq_some_iff.1 h
  obtain ⟨-, rfl⟩ := Prod.mk.inj (Option.some.inj hlook)
  split at h
  · exact hbehind nofun h
  obtain ⟨seen, c₁, hlook, h⟩ := bind_eq_some_iff.1 h
  obtain ⟨-, rfl⟩ := Prod.mk.inj (Option.some.inj hlook)
  split at h
  · obtain ⟨_, c₁, -, h⟩ := bind_eq_some_iff.1 h
    exact hbehind nofun h
  obtain ⟨seen, c₁, hlook, h⟩ := bind_eq_some_iff.1 h
  obtain ⟨-, rfl⟩ := Prod.mk.inj (Option.some.inj hlook)
  split at h
  · exact hbehind nofun h
  obtain ⟨seen, c₁, hlook, h⟩ := bind_eq_some_iff.1 h
  obtain ⟨-, rfl⟩ := Prod.mk.inj (Option.some.inj hlook)
  split at h
  · unfold endTag at h
    simp only [bind_eq_some_iff] at h
    obtain ⟨_, _, -, _, _, -, _, _, -, _, _, -, _, _, -, h⟩ := h
    cases (pure_eq_some_iff.1 h).1
  obtain ⟨seen, c₁, hlook, h⟩ := bind_eq_some_iff.1 h
  rw [hangle] at hlook
  obtain ⟨rfl, rfl⟩ := Prod.mk.inj (Option.some.inj hlook)
  rw [if_pos rfl] at h
  unfold startTag at h
  simp only [bind_eq_some_iff] at h
  obtain ⟨_, _, -, _, _, -, _, _, -, _, _, -, h⟩ := h
  split at h
  · cases (pure_eq_some_iff.1 h).1
  · obtain ⟨_, _, -, h⟩ := bind_eq_some_iff.1 h
    exact hbehind nofun h

/-- A token of character data. -/
theorem contentToken_text {n : Nat} {c c' : Cursor} {cs : List Char}
    (h : contentToken n c = some (.text cs, c')) :
    IsCharData cs ∧ EndsText c'.rest ∧ c.rest = cs ++ c'.rest ∧
      c'.offset = c.offset + cs.length := by
  rw [contentToken_eq_text (head?_ne_of_contentToken h)] at h
  obtain ⟨taken, heq, hfound⟩ := text_eq_some h
  obtain rfl := Token.text.inj heq
  exact hfound

/-! ### Content, token by token -/

/-- Content is read token by token, as long as something is left and the element
    around it is open. The first number bounds the tokens, the second counts the
    elements that are open inside. -/
inductive Reads : Nat → Nat → Cursor → List Token → Cursor → Prop where
  /-- The text is at its end. -/
  | stop {n opened : Nat} {c : Cursor} (hend : c.rest = []) : Reads (n + 1) opened c [] c
  /-- The end tag of the element around the content is the last token. -/
  | last {n opened : Nat} {c c' : Cursor} {t : Token} (hmore : c.rest ≠ [])
    (htoken : contentToken n c = some (t, c')) (hopen : t.openBehind opened = none) :
    Reads (n + 1) opened c [t] c'
  /-- Any other token. -/
  | next {n opened behind : Nat} {c between c' : Cursor} {t : Token} {ts : List Token}
    (hmore : c.rest ≠ []) (htoken : contentToken n c = some (t, between))
    (hopen : t.openBehind opened = some behind) (hrest : Reads n behind between ts c') :
    Reads (n + 1) opened c (t :: ts) c'

/-- Content goes on behind a token, unless the token ends the element around. -/
theorem content_succ {n opened : Nat} {tokens : List Token} {c : Cursor} (hmore : c.rest ≠ []) :
    content opened tokens (n + 1) c =
      (contentToken n >>= fun t => (t.openBehind opened).elim (pure (t :: tokens).reverse)
        fun behind => content behind (t :: tokens) n) c := by
  rw [content]
  change (if c.rest.isEmpty = true then pure tokens.reverse else _ : Scan (List Token)) c = _
  rw [if_neg (by simpa using hmore)]
  refine congrArg (fun f => (contentToken n >>= f) c) (funext fun t => ?_)
  cases t with
  | startTag name attributes isEmpty first last => cases isEmpty <;> rfl
  | endTag name last => cases opened <;> rfl
  | text | cdata | comment | instruction | cutTag => rfl

/-- Content ends with the text. -/
theorem content_of_nil {n opened : Nat} {tokens : List Token} {c : Cursor} (hend : c.rest = []) :
    content opened tokens (n + 1) c = some (tokens.reverse, c) := by
  rw [content]
  change (if c.rest.isEmpty = true then pure tokens.reverse else _ : Scan (List Token)) c = _
  rw [if_pos (by simp [hend])]
  rfl

/-- What the scan of content returns are the tokens that are read. -/
theorem content_eq_some_iff {n opened : Nat} {tokens all : List Token} {c c' : Cursor} :
    content opened tokens n c = some (all, c') ↔
      ∃ ts, all = tokens.reverse ++ ts ∧ Reads n opened c ts c' := by
  induction n generalizing opened tokens c with
  | zero =>
    constructor
    · exact nofun
    · rintro ⟨ts, -, h⟩
      cases h
  | succ n ih =>
    by_cases hend : c.rest = []
    · rw [content_of_nil hend]
      constructor
      · intro h
        obtain ⟨rfl, rfl⟩ := Prod.mk.inj (Option.some.inj h)
        exact ⟨[], (List.append_nil _).symm, .stop hend⟩
      · rintro ⟨ts, rfl, h⟩
        cases h with
        | stop => rw [List.append_nil]
        | last hmore => exact absurd hend hmore
        | next hmore => exact absurd hend hmore
    · rw [content_succ hend]
      constructor
      · intro h
        obtain ⟨t, between, htoken, h⟩ := bind_eq_some_iff.1 h
        cases hopen : t.openBehind opened with
        | none =>
          rw [hopen] at h
          obtain ⟨rfl, rfl⟩ := pure_eq_some_iff.1 h
          exact ⟨[t], List.reverse_cons, .last hend htoken hopen⟩
        | some behind =>
          rw [hopen] at h
          obtain ⟨ts, rfl, hts⟩ := ih.1 h
          exact ⟨t :: ts, by simp, .next hend htoken hopen hts⟩
      · rintro ⟨ts, rfl, h⟩
        cases h with
        | stop hnone => exact absurd hnone hend
        | last _ htoken hopen =>
          refine bind_eq_some_iff.2 ⟨_, _, htoken, ?_⟩
          rw [hopen, ← List.reverse_cons]
          rfl
        | next _ htoken hopen hrest =>
          refine bind_eq_some_iff.2 ⟨_, _, htoken, ?_⟩
          rw [hopen]
          exact ih.2 ⟨_, by simp, hrest⟩

namespace Reads

variable {n n' opened : Nat} {c c' c'' : Cursor} {ts us : List Token} {chars : List Char}

/-- The tokens that are read lie one behind another. -/
theorem laid (h : Reads n opened c ts c') (hc : c.Within chars) :
    c'.Within chars ∧ Laid chars c.offset ts := by
  have hcontent : content opened [] n c = some (ts, c') := content_eq_some_iff.2 ⟨ts, rfl, h⟩
  obtain ⟨hc', taken, heq, hlaid⟩ := content_laid hc hcontent
  obtain rfl : ts = taken := heq
  exact ⟨hc', hlaid⟩

/-- What is read is determined by where it is read. -/
theorem unique (h : Reads n opened c ts c') (h' : Reads n opened c us c'') :
    ts = us ∧ c' = c'' := by
  have hts : content opened [] n c = some (ts, c') := content_eq_some_iff.2 ⟨ts, rfl, h⟩
  have hus : content opened [] n c = some (us, c'') := content_eq_some_iff.2 ⟨us, rfl, h'⟩
  rw [hts] at hus
  obtain ⟨heq, rfl⟩ := Prod.mk.inj (Option.some.inj hus)
  exact ⟨heq, rfl⟩

/-- In front of nothing, content is read elsewhere with all places shifted, and
    with more fuel if need be. -/
theorem shifted (h : Reads n opened c ts c') (hn : n ≤ n') (d : Nat) :
    Reads n' opened ⟨c.rest, c.offset + d⟩ (ts.map (Token.mapPlaces (· + d) (· + d)))
      ⟨c'.rest, c'.offset + d⟩ := by
  have hcarries {m m' : Nat} {c c' : Cursor} {t : Token} (hm : m ≤ m')
      (htoken : contentToken m c = some (t, c')) :
      contentToken m' ⟨c.rest, c.offset + d⟩ =
        some (t.mapPlaces (· + d) (· + d), ⟨c'.rest, c'.offset + d⟩) := by
    have h := (carries_contentToken (s := ⟨d, [], '>', c.rest.length + 1⟩) rfl hm).carries
      (Nat.lt_succ_self _) htoken (.inl rfl)
    simpa [Surroundings.around] using h
  have hopen (t : Token) (k : Nat) :
      (t.mapPlaces (· + d) (· + d)).openBehind k = t.openBehind k := by
    cases t with
    | startTag name attributes isEmpty first last => cases isEmpty <;> rfl
    | _ => rfl
  induction h generalizing n' with
  | stop hend =>
    obtain ⟨n', rfl⟩ := Nat.exists_eq_succ_of_ne_zero (n := n') (by omega)
    exact .stop hend
  | last hmore htoken hlast =>
    obtain ⟨n', rfl⟩ := Nat.exists_eq_succ_of_ne_zero (n := n') (by omega)
    exact .last hmore (hcarries (by omega) htoken) ((hopen _ _).trans hlast)
  | next hmore htoken hnext _ ih =>
    obtain ⟨n', rfl⟩ := Nat.exists_eq_succ_of_ne_zero (n := n') (by omega)
    exact .next hmore (hcarries (by omega) htoken) ((hopen _ _).trans hnext) (ih (by omega))

/-- More fuel does no harm. -/
theorem mono (h : Reads n opened c ts c') (hn : n ≤ n') : Reads n' opened c ts c' := by
  have hsame := h.shifted hn 0
  have hid : Token.mapPlaces (· + 0) (· + 0) = id := funext fun t => by cases t <;> rfl
  rwa [hid, List.map_id] at hsame

/-- Content behind a token that does not end it. -/
theorem succ_iff {between : Cursor} {t : Token} {k : Nat} (hmore : c.rest ≠ [])
    (htoken : contentToken n c = some (t, between)) (hopen : t.openBehind opened = some k) :
    Reads (n + 1) opened c us c'' ↔ ∃ rest, us = t :: rest ∧ Reads n k between rest c'' := by
  constructor
  · intro h
    cases h with
    | stop hend => exact absurd hend hmore
    | last _ htoken' hopen' =>
      obtain ⟨rfl, rfl⟩ := Prod.mk.inj (Option.some.inj (htoken.symm.trans htoken'))
      rw [hopen] at hopen'
      cases hopen'
    | next _ htoken' hopen' hrest =>
      obtain ⟨rfl, rfl⟩ := Prod.mk.inj (Option.some.inj (htoken.symm.trans htoken'))
      rw [hopen] at hopen'
      cases hopen'
      exact ⟨_, rfl, hrest⟩
  · rintro ⟨rest, rfl, hrest⟩
    exact .next hmore htoken hopen hrest

/-- At the end of the text there is no token. -/
theorem eq_nil_of_rest_eq_nil (h : Reads n opened c us c'') (hend : c.rest = []) : us = [] := by
  cases h with
  | stop => rfl
  | last hmore => exact absurd hend hmore
  | next hmore => exact absurd hend hmore

end Reads

/-- Markup that is read whole is read whatever comes behind it. -/
theorem contentToken_append {n n' : Nat} {c c' : Cursor} {t : Token} (hn : n ≤ n')
    (h : contentToken n c = some (t, c')) (ht : t.IsMarkup) (behind : List Char) :
    contentToken n' ⟨c.rest ++ behind, c.offset⟩ = some (t, ⟨c'.rest ++ behind, c'.offset⟩) := by
  have h := (carries_contentToken (s := ⟨0, behind, '>', c.rest.length + 1⟩) rfl hn).carries
    (Nat.lt_succ_self _) h (.inr (.inr ht))
  have hid : t.mapPlaces (· + 0) (· + 0) = t := by cases t <;> rfl
  rwa [hid] at h

/-- A token takes the characters between the places where it begins and ends. -/
theorem contentToken_length {n : Nat} {c c' : Cursor} {t : Token}
    (h : contentToken n c = some (t, c')) (ht : t ≠ .cutTag) :
    c'.offset + c'.rest.length = c.offset + c.rest.length := by
  have hmarkup (ht : t.IsMarkup) : c'.offset + c'.rest.length = c.offset + c.rest.length := by
    obtain ⟨k, hdrop, hoffset⟩ := (carries_contentToken (s := ⟨0, [], '>', 0⟩) rfl
      (Nat.le_refl n)).closes h ht
    have hlength := congrArg List.length hdrop
    rw [List.length_drop, List.length_cons] at hlength
    omega
  cases t with
  | text cs =>
    obtain ⟨-, -, hsplit, hoffset⟩ := contentToken_text h
    rw [hsplit, hoffset, List.length_append]
    omega
  | cutTag => exact absurd rfl ht
  | _ => exact hmarkup trivial

/-- The tag of a token ends by the end of the text it is read from. -/
theorem contentToken_endsBy {chars : List Char} {n : Nat} {c c' : Cursor} {t : Token}
    (hc : c.Within chars) (h : contentToken n c = some (t, c')) :
    t.EndsBy (c.offset + c.rest.length) := by
  have hlies := (lays_contentToken n _ _ _ hc h).2
  have hlength := contentToken_length h
  cases t with
  | startTag name attributes isEmpty first last =>
    obtain ⟨-, horder, hlast, -⟩ := hlies
    have := hlength nofun
    exact ⟨horder, by omega⟩
  | endTag name last =>
    have := hlength nofun
    have hlast := hlies.2
    change last ≤ _
    omega
  | _ => trivial

/-- So do the tags of all tokens. -/
theorem Reads.endsBy {chars : List Char} {n opened : Nat} {c c' : Cursor} {ts : List Token}
    (h : Reads n opened c ts c') (hc : c.Within chars) :
    ∀ t ∈ ts, t.EndsBy (c.offset + c.rest.length) := by
  induction h with
  | stop => exact List.forall_mem_nil _
  | last _ htoken => exact List.forall_mem_singleton.2 (contentToken_endsBy hc htoken)
  | @next n opened k c between c' t ts _ htoken _ hrest ih =>
    refine List.forall_mem_cons.2 ⟨contentToken_endsBy hc htoken, ?_⟩
    have ih := ih (lays_contentToken n _ _ _ hc htoken).1
    -- no token follows a tag that is cut off
    by_cases hend : between.rest = []
    · rw [hrest.eq_nil_of_rest_eq_nil hend]
      exact List.forall_mem_nil _
    · obtain ⟨k, rfl⟩ := (carries_contentToken (s := ⟨0, [], '>', 0⟩) rfl
        (Nat.le_refl n)).moves _ _ _ htoken
      have hpos := List.length_pos_iff.2 hend
      rw [Cursor.skip_rest, List.length_drop] at hpos
      have hsame : (c.skip k).offset + (c.skip k).rest.length = c.offset + c.rest.length := by
        rw [Cursor.skip_offset, Cursor.skip_rest, List.length_drop]
        omega
      rwa [hsame] at ih

/-- A text that breaks off in content: how it is read when it goes on. Its last
    characters may be character data, and so become part of a longer token. -/
structure BreaksOff (n opened : Nat) (c : Cursor) (ts : List Token) (tail : List Char)
    (place k : Nat) : Prop where
  /-- The last characters may be character data. -/
  charData : IsCharData tail
  /-- Every token before them took a unit of fuel. -/
  fuel : ts.length < n
  /-- They begin at the place and end with the text. -/
  length : place + tail.length = c.offset + c.rest.length
  /-- Whatever comes behind the text, the tokens are read first, and then what the
      last characters begin, with `k` elements open. -/
  goesOn : ∀ behind n' us c'', n ≤ n' →
    (Reads n' opened ⟨c.rest ++ behind, c.offset⟩ us c'' ↔
      ∃ rest, us = ts ++ rest ∧ Reads (n' - ts.length) k ⟨tail ++ behind, place⟩ rest c'')

/-- No characters are character data. -/
theorem isCharData_nil : IsCharData [] := ⟨nofun, rfl, rfl⟩

/-- A token is read as before if the text goes on, unless it is cut off or is
    character data up to the end. -/
theorem contentToken_append_of_ends {n n' : Nat} {c c' : Cursor} {t : Token} (hn : n ≤ n')
    (hmore : c.rest ≠ []) (h : contentToken n c = some (t, c')) (hcut : t ≠ .cutTag)
    (hends : ∀ cs, t = .text cs → c'.rest ≠ []) (behind : List Char) :
    contentToken n' ⟨c.rest ++ behind, c.offset⟩ = some (t, ⟨c'.rest ++ behind, c'.offset⟩) := by
  cases t with
  | text cs =>
    obtain ⟨hcs, hends', hsplit, hoffset⟩ := contentToken_text h
    have hlonger : EndsText (c'.rest ++ behind) := by
      obtain ⟨first, rest, hrest⟩ := List.exists_cons_of_ne_nil (hends cs rfl)
      rw [hrest] at hends' ⊢
      exact hends'
    have hhead : (c.rest ++ behind).head? ≠ some '<' := by
      obtain ⟨first, rest, hrest⟩ := List.exists_cons_of_ne_nil hmore
      have hfirst := head?_ne_of_contentToken h
      rw [hrest] at hfirst ⊢
      exact hfirst
    rw [contentToken_eq_text hhead, hsplit, List.append_assoc, text_append hcs hlonger, hoffset]
  | cutTag => exact absurd rfl hcut
  | _ => exact contentToken_append hn h trivial behind

namespace BreaksOff

/-- A text that is character data only breaks off in it. -/
theorem nil {cs : List Char} (hcs : IsCharData cs) (n opened offset : Nat) :
    BreaksOff (n + 1) opened ⟨cs, offset⟩ [] cs offset opened where
  charData := hcs
  fuel := Nat.succ_pos n
  length := rfl
  goesOn behind n' us c'' _ := by simp

/-- A text breaks off behind a token if what comes behind the token does. -/
theorem cons {n opened behind place k : Nat} {c between : Cursor} {t : Token} {ts : List Token}
    {tail : List Char} (hmore : c.rest ≠ []) (hopen : t.openBehind opened = some behind)
    (hlength : between.offset + between.rest.length = c.offset + c.rest.length)
    (hlonger : ∀ more n', n ≤ n' → contentToken n' ⟨c.rest ++ more, c.offset⟩ =
      some (t, ⟨between.rest ++ more, between.offset⟩))
    (h : BreaksOff n behind between ts tail place k) :
    BreaksOff (n + 1) opened c (t :: ts) tail place k where
  charData := h.charData
  fuel := Nat.succ_lt_succ h.fuel
  length := h.length.trans hlength
  goesOn more n' us c'' hn := by
    obtain ⟨n', rfl⟩ := Nat.exists_eq_succ_of_ne_zero (n := n') (by omega)
    have hn : n ≤ n' := Nat.le_of_succ_le_succ hn
    have hmore' : c.rest ++ more ≠ [] := List.append_ne_nil_of_left_ne_nil hmore more
    rw [Reads.succ_iff hmore' (hlonger more n' hn) hopen]
    constructor
    · rintro ⟨us, rfl, hinner⟩
      obtain ⟨rest, rfl, hrest⟩ := (h.goesOn more n' us c'' hn).1 hinner
      exact ⟨rest, rfl, by simpa using hrest⟩
    · rintro ⟨rest, rfl, hrest⟩
      exact ⟨ts ++ rest, rfl, (h.goesOn more n' _ c'' hn).2 ⟨rest, rfl, by simpa using hrest⟩⟩

end BreaksOff

/-- Content that is read in front of nothing ends with its last tag, or else
    the text breaks off in it. -/
theorem Reads.complete_or_breaksOff {n opened : Nat} {c c' : Cursor} {ts : List Token}
    (h : Reads n opened c ts c') (hcut : .cutTag ∉ ts) :
    (∀ behind n', n ≤ n' →
      Reads n' opened ⟨c.rest ++ behind, c.offset⟩ ts ⟨c'.rest ++ behind, c'.offset⟩) ∨
    ∃ ts₀ tail place k, ts = ts₀ ++ textTokens tail ∧ BreaksOff n opened c ts₀ tail place k := by
  induction h with
  | @stop n opened c hend =>
    obtain ⟨rest, offset⟩ := c
    obtain rfl : rest = [] := hend
    exact .inr ⟨[], [], offset, opened, rfl, .nil isCharData_nil n opened offset⟩
  | @last n opened c c' t hmore htoken hopen =>
    refine .inl fun behind n' hn => ?_
    obtain ⟨n', rfl⟩ := Nat.exists_eq_succ_of_ne_zero (n := n') (by omega)
    have ht : t.IsMarkup := by
      cases t with
      | text | cutTag => cases hopen
      | _ => trivial
    exact .last (by simp [hmore]) (contentToken_append (by omega) htoken ht behind) hopen
  | @next n opened k c between c' t ts hmore htoken hopen hrest ih =>
    rw [List.mem_cons, not_or] at hcut
    -- the token is read in the longer text, unless it is text at the end
    by_cases hlast : ∃ cs, t = .text cs ∧ between.rest = []
    · obtain ⟨cs, rfl, hend⟩ := hlast
      obtain ⟨hcs, -, hsplit, -⟩ := contentToken_text htoken
      obtain rfl := hrest.eq_nil_of_rest_eq_nil hend
      rw [hend, List.append_nil] at hsplit
      obtain ⟨rest, offset⟩ := c
      obtain rfl : rest = cs := hsplit
      refine .inr ⟨[], rest, offset, opened, ?_, .nil hcs n opened offset⟩
      rw [textTokens, if_neg hmore]
      rfl
    have hlonger (behind : List Char) (n' : Nat) (hn : n ≤ n') :
        contentToken n' ⟨c.rest ++ behind, c.offset⟩ =
          some (t, ⟨between.rest ++ behind, between.offset⟩) :=
      contentToken_append_of_ends hn hmore htoken (Ne.symm hcut.1)
        (fun cs ht hend => hlast ⟨cs, ht, hend⟩) behind
    rcases ih hcut.2 with hcomplete | ⟨ts₀, tail, place, j, rfl, hbreaks⟩
    · refine .inl fun behind n' hn => ?_
      obtain ⟨n', rfl⟩ := Nat.exists_eq_succ_of_ne_zero (n := n') (by omega)
      have hn : n ≤ n' := Nat.le_of_succ_le_succ hn
      exact .next (List.append_ne_nil_of_left_ne_nil hmore behind) (hlonger behind n' hn) hopen
        (hcomplete behind n' hn)
    · exact .inr ⟨t :: ts₀, tail, place, j, rfl,
        .cons hmore hopen (contentToken_length htoken (Ne.symm hcut.1)) hlonger hbreaks⟩

/-! ### A comment -/

end Scan

/-- The text is a comment: two hyphens end it and may not stand inside. -/
def IsComment (text : List Char) : Prop :=
  ∃ content, text = "<!--".toList ++ content ++ "-->".toList ∧ content.all isXmlChar = true ∧
    ¬ ['-', '-'] <:+: content ∧ content.getLast? ≠ some '-'

namespace Scan

/-- Two hyphens that do not stand in a text are not found there. -/
theorem splitBefore_of_not_inside {content : List Char} (hinside : ¬ ['-', '-'] <:+: content) :
    splitBefore ['-', '-'] content = none := by
  cases hsplit : splitBefore ['-', '-'] content with
  | none => rfl
  | some found =>
    obtain ⟨before, after⟩ := found
    obtain ⟨rest, rfl⟩ := (splitBefore_append hsplit []).1
    rw [splitBefore_eq_some hsplit] at hinside
    exact absurd ⟨before, rest, by simp⟩ hinside

/-- The end of a comment is found behind its content. -/
theorem splitBefore_comment {content : List Char} (hinside : ¬ ['-', '-'] <:+: content)
    (hlast : content.getLast? ≠ some '-') (behind : List Char) :
    splitBefore ['-', '-', '>'] (content ++ (['-', '-', '>'] ++ behind)) =
      some (content, ['-', '-', '>'] ++ behind) := by
  induction content with
  | nil => rfl
  | cons ch rest ih =>
    have hrest : ¬ ['-', '-'] <:+: rest := fun h =>
      hinside (h.trans (List.suffix_cons ch rest).isInfix)
    have hlast' : rest.getLast? ≠ some '-' := by
      cases rest with
      | nil => nofun
      | cons next more => simpa [List.getLast?_cons_cons] using hlast
    -- the first two hyphens would stand inside the content or at its end
    have hno :
        ¬ ['-', '-', '>'].isPrefixOf (ch :: (rest ++ (['-', '-', '>'] ++ behind))) = true := by
      rw [List.isPrefixOf_iff_prefix]
      rintro ⟨more, hmore⟩
      obtain ⟨rfl, hnext⟩ := List.cons.inj hmore
      cases rest with
      | nil => exact hlast rfl
      | cons next rest =>
        obtain ⟨rfl, -⟩ := List.cons.inj hnext
        exact hinside ⟨[], rest, rfl⟩
    rw [List.cons_append, splitBefore, if_neg hno, ih hrest hlast']
    rfl

/-- A comment is read as one token, whatever comes behind it. -/
theorem contentToken_comment {text : List Char} (htext : IsComment text) (n place : Nat)
    (behind : List Char) :
    contentToken n ⟨text ++ behind, place⟩ = some (.comment, ⟨behind, place + text.length⟩) := by
  obtain ⟨content, rfl, hchars, hinside, hlast⟩ := htext
  have hrest : "<!--".toList ++ content ++ "-->".toList ++ behind =
      "<!--".toList ++ (content ++ (['-', '-', '>'] ++ behind)) := by
    simp only [List.append_assoc]
    rfl
  have hopen : expect "<!--" ⟨"<!--".toList ++ (content ++ (['-', '-', '>'] ++ behind)), place⟩ =
      some ((), ⟨content ++ (['-', '-', '>'] ++ behind), place + 4⟩) := rfl
  have hthrough : takeThrough "-->" ⟨content ++ (['-', '-', '>'] ++ behind), place + 4⟩ =
      some (content, ⟨behind, place + 4 + content.length + 3⟩) := by
    have hsplit := splitBefore_comment hinside hlast behind
    unfold takeThrough
    change (splitBefore ['-', '-', '>'] (content ++ (['-', '-', '>'] ++ behind))).bind _ = _
    rw [hsplit, Option.bind_some]
    simp only [hchars, if_true]
    rfl
  have hcomment : comment ⟨"<!--".toList ++ (content ++ (['-', '-', '>'] ++ behind)), place⟩ =
      some ((), ⟨behind, place + 4 + content.length + 3⟩) := by
    refine bind_eq_some_iff.2 ⟨(), _, hopen, bind_eq_some_iff.2 ⟨content, _, hthrough, ?_⟩⟩
    simp only [splitBefore_of_not_inside hinside, Option.isSome_none, Bool.false_or,
      decide_eq_true_eq, if_neg hlast]
    rfl
  have hlength : place + ("<!--".toList ++ content ++ "-->".toList).length =
      place + 4 + content.length + 3 := by
    simp only [List.length_append]
    change place + (4 + content.length + 3) = _
    omega
  rw [hrest, hlength]
  have hlook : looksAt "<!--" ⟨"<!--".toList ++ (content ++ (['-', '-', '>'] ++ behind)), place⟩ =
      some (true, ⟨"<!--".toList ++ (content ++ (['-', '-', '>'] ++ behind)), place⟩) := rfl
  refine bind_eq_some_iff.2 ⟨true, _, hlook, ?_⟩
  rw [if_pos rfl]
  exact bind_eq_some_iff.2 ⟨(), _, hcomment, rfl⟩

/-! ### A comment in content -/

/-- A text splits in one way into character data and what ends it. -/
theorem charData_unique {cs cs' rest rest' : List Char} (hcs : ∀ ch ∈ cs, ch ≠ '<')
    (hcs' : ∀ ch ∈ cs', ch ≠ '<') (hrest : EndsText rest) (hrest' : EndsText rest')
    (h : cs ++ rest = cs' ++ rest') : cs = cs' ∧ rest = rest' := by
  have htake {cs rest : List Char} (hcs : ∀ ch ∈ cs, ch ≠ '<') (hrest : EndsText rest) :
      (cs ++ rest).takeWhile (· ≠ '<') = cs := by
    have hnone : rest.takeWhile (· ≠ '<') = [] := by
      cases rest with
      | nil => rfl
      | cons ch rest => simp [hrest ch rfl]
    rw [List.takeWhile_append_of_pos fun ch hch => decide_eq_true (hcs ch hch), hnone,
      List.append_nil]
  obtain rfl : cs = cs' := by rw [← htake hcs hrest, h, htake hcs' hrest']
  exact ⟨rfl, List.append_cancel_left h⟩

variable {n n' opened place : Nat} {c' : Cursor} {ts us : List Token}
  {cs rest tail right : List Char}

/-- Character data is read first, and then what is behind it. -/
theorem Reads.text_append (hcs : IsCharData cs) (hrest : EndsText rest)
    (h : Reads n opened ⟨rest, place + cs.length⟩ ts c') :
    Reads (n + 1) opened ⟨cs ++ rest, place⟩ (textTokens cs ++ ts) c' := by
  by_cases hnil : cs = []
  · subst hnil
    exact h.mono (Nat.le_succ n)
  · obtain ⟨ch, more, rfl⟩ := List.exists_cons_of_ne_nil hnil
    have hhead : (Cursor.mk (ch :: more ++ rest) place).rest.head? ≠ some '<' := fun h =>
      hcs.noAngle ch List.mem_cons_self (Option.some.inj h)
    have htoken := (contentToken_eq_text (n := n) hhead).trans (Scan.text_append hcs hrest)
    rw [textTokens, if_neg hnil]
    exact .next (by simp) htoken rfl h

/-- The characters before the next markup are one token, if there are any. -/
theorem Reads.exists_of_text (hcs : ∀ ch ∈ cs, ch ≠ '<') (hrest : EndsText rest)
    (h : Reads n opened ⟨cs ++ rest, place⟩ us c') :
    ∃ ts, us = textTokens cs ++ ts ∧ IsCharData cs ∧
      Reads n opened ⟨rest, place + cs.length⟩ ts c' := by
  by_cases hnil : cs = []
  · subst hnil
    exact ⟨us, rfl, isCharData_nil, h⟩
  · obtain ⟨ch, more, rfl⟩ := List.exists_cons_of_ne_nil hnil
    have hhead : (Cursor.mk (ch :: more ++ rest) place).rest.head? ≠ some '<' := fun h =>
      hcs ch List.mem_cons_self (Option.some.inj h)
    have hread {m : Nat} {t : Token} {between : Cursor}
        (htoken : contentToken m ⟨ch :: more ++ rest, place⟩ = some (t, between)) :
        t = .text (ch :: more) ∧ IsCharData (ch :: more) ∧
          between = ⟨rest, place + (ch :: more).length⟩ := by
      rw [contentToken_eq_text hhead] at htoken
      obtain ⟨taken, rfl, htaken, hends, hsplit, hoffset⟩ := text_eq_some htoken
      obtain ⟨rfl, hbehind⟩ := charData_unique hcs htaken.noAngle hrest hends hsplit
      cases between with
      | mk left offset =>
        obtain rfl : rest = left := hbehind
        obtain rfl : offset = place + (ch :: more).length := hoffset
        exact ⟨rfl, htaken, rfl⟩
    rw [textTokens, if_neg hnil]
    cases h with
    | stop hend => cases hend
    | last _ htoken hopen =>
      obtain ⟨rfl, -, -⟩ := hread htoken
      cases hopen
    | next _ htoken hopen hbehind =>
      obtain ⟨rfl, hdata, rfl⟩ := hread htoken
      obtain rfl := Option.some.inj hopen
      exact ⟨_, rfl, hdata, hbehind.mono (Nat.le_succ _)⟩

/-- A comment between the characters of a text splits the token of the text,
    and shifts all tokens behind it. -/
theorem Reads.commented (htail : IsCharData tail)
    (h : Reads n opened ⟨tail ++ right, place⟩ us c') :
    ∃ more behind ts, right = more ++ behind ∧ us = textTokens (tail ++ more) ++ ts ∧
      Reads n opened ⟨behind, place + (tail ++ more).length⟩ ts c' ∧
      ∀ comment n', IsComment comment → n + 3 ≤ n' →
        Reads n' opened ⟨tail ++ (comment ++ right), place⟩
          (textTokens tail ++ .comment :: (textTokens more ++
            ts.map (Token.mapPlaces (· + comment.length) (· + comment.length))))
          ⟨c'.rest, c'.offset + comment.length⟩ := by
  have hsplit : right.takeWhile (· ≠ '<') ++ right.dropWhile (· ≠ '<') = right :=
    List.takeWhile_append_dropWhile
  have hends : EndsText (right.dropWhile (· ≠ '<')) := by
    intro ch hch
    have hstop := List.head?_dropWhile_not (p := (· ≠ '<')) right
    rw [Option.mem_def.1 hch] at hstop
    simpa using hstop
  have hangle : ∀ ch ∈ right.takeWhile (· ≠ '<'), ch ≠ '<' := fun ch hch =>
    of_decide_eq_true (List.all_eq_true.1 List.all_takeWhile ch hch)
  generalize right.takeWhile (· ≠ '<') = more at hsplit hangle
  generalize right.dropWhile (· ≠ '<') = behind at hsplit hends
  subst hsplit
  have hall : ∀ ch ∈ tail ++ more, ch ≠ '<' := by
    intro ch hch
    rcases List.mem_append.1 hch with htail' | hmore
    · exact htail.noAngle ch htail'
    · exact hangle ch hmore
  rw [← List.append_assoc] at h
  obtain ⟨ts, rfl, hdata, hbehind⟩ := h.exists_of_text hall hends
  refine ⟨more, behind, ts, rfl, rfl, hbehind, fun comment n' hcomment hn' => ?_⟩
  obtain ⟨m, rfl⟩ : ∃ m, n' = m + 3 := ⟨n' - 3, by omega⟩
  -- the comment begins with the angle that ends character data
  have hopen : EndsText (comment ++ (more ++ behind)) := by
    obtain ⟨content, rfl, -⟩ := hcomment
    intro ch hch
    exact (Option.some.inj hch).symm
  have hne : comment ++ (more ++ behind) ≠ [] := by
    obtain ⟨content, rfl, -⟩ := hcomment
    nofun
  refine .text_append htail hopen (.next hne (contentToken_comment hcomment _ _ _) rfl ?_)
  refine .text_append hdata.right hends ?_
  have hm : n ≤ m := by omega
  have hshifted := hbehind.shifted hm comment.length
  rw [List.length_append] at hshifted
  have hplace : place + tail.length + comment.length + more.length =
      place + (tail.length + more.length) + comment.length := by omega
  rw [hplace]
  exact hshifted

/-! ### The document -/

/-- A scan behind one that succeeds. -/
theorem bind_of_eq_some {α β : Type} {m : Scan α} {f : α → Scan β} {c between : Cursor} {a : α}
    (h : m c = some (a, between)) : (m >>= f) c = f a between := by
  change (m c).bind (fun r => f r.1 r.2) = _
  rw [h]
  rfl

/-- A tag is read where an angle stands. -/
theorem looksAt_of_startTag {t : Token} {c between : Cursor}
    (h : startTag n c = some (t, between)) : looksAt "<" c = some (true, c) := by
  obtain ⟨first, c₁, hfirst, h⟩ := bind_eq_some_iff.1 h
  obtain ⟨-, rfl⟩ := Prod.mk.inj (Option.some.inj hfirst)
  obtain ⟨_, c₂, hangle, -⟩ := bind_eq_some_iff.1 h
  obtain ⟨rest, hrest⟩ := List.head?_eq_some_iff.1 (expectChar_eq_some hangle).1
  unfold looksAt
  rw [hrest]
  rfl

/-- Behind the tag that opens the root element, its content is read. -/
theorem rootElement_eq_some_iff {tag : Token} {tokens : List Token} {c between : Cursor}
    (htag : startTag n c = some (tag, between)) (hopen : tag.openBehind 0 = some 1) :
    rootElement n c = some (tokens, c') ↔
      ∃ inner, tokens = tag :: inner ∧ Reads n 0 between inner c' := by
  have hcontent : rootElement n c =
      (content 0 [] n >>= fun inner => pure (tag :: inner)) between := by
    unfold rootElement
    rw [bind_of_eq_some (looksAt_of_startTag htag), if_pos rfl, bind_of_eq_some htag]
    cases tag with
    | startTag name attributes isEmpty first last =>
      cases isEmpty with
      | false => rfl
      | true => cases hopen
    | _ => cases hopen
  rw [hcontent, bind_eq_some_iff]
  constructor
  · rintro ⟨inner, c₁, h, hpure⟩
    obtain ⟨rfl, rfl⟩ := pure_eq_some_iff.1 hpure
    obtain ⟨ts, heq, hreads⟩ := content_eq_some_iff.1 h
    obtain rfl : inner = ts := heq
    exact ⟨inner, rfl, hreads⟩
  · rintro ⟨inner, rfl, hreads⟩
    exact ⟨inner, c', content_eq_some_iff.2 ⟨inner, rfl, hreads⟩, rfl⟩

/-- What is read behind the tag that opens the root element. -/
theorem document_eq_some_iff {entities : List Entity} {tag : Token} {c c₁ c₂ : Cursor}
    {found : List Entity × List Token} (hprolog : prolog n c = some (entities, c₁))
    (htag : startTag n c₁ = some (tag, c₂)) (hopen : tag.openBehind 0 = some 1) :
    document n c = some (found, c') ↔
      ∃ inner c₃, found = (entities, tag :: inner) ∧ Reads n 0 c₂ inner c₃ ∧
        misc n c₃ = some ((), c') ∧ c'.rest = [] := by
  have hbody : document n c = body n entities c₁ := by
    rw [document_eq, bind_of_eq_some hprolog]
  have hclosed {tokens : List Token} {c₄ : Cursor} :
      (atEnd >>= fun b => if b then pure (entities, tokens) else refuse) c₄ = some (found, c') ↔
        found = (entities, tokens) ∧ c₄ = c' ∧ c'.rest = [] := by
    change (if c₄.rest.isEmpty = true then pure (entities, tokens) else refuse :
      Scan (List Entity × List Token)) c₄ = _ ↔ _
    split
    · rename_i hend
      rw [pure_eq_some_iff, eq_comm]
      refine and_congr_right fun _ => ⟨fun h => ⟨h, ?_⟩, fun h => h.1⟩
      rw [← h]
      exact List.isEmpty_iff.1 hend
    · rename_i hend
      refine ⟨nofun, ?_⟩
      rintro ⟨-, rfl, hnone⟩
      exact absurd (List.isEmpty_iff.2 hnone) hend
  rw [hbody]
  unfold body
  simp only [bind_eq_some_iff, rootElement_eq_some_iff htag hopen, hclosed]
  constructor
  · rintro ⟨tokens, c₃, ⟨inner, rfl, hreads⟩, _, c₄, hmisc, rfl, rfl, hend⟩
    exact ⟨inner, c₃, rfl, hreads, hmisc, hend⟩
  · rintro ⟨inner, c₃, rfl, hreads, hmisc, hend⟩
    exact ⟨_, c₃, ⟨inner, rfl, hreads⟩, (), c', hmisc, rfl, rfl, hend⟩

/-- What a start tag is read as. -/
theorem startTag_eq_some {t : Token} {c : Cursor} (h : startTag n c = some (t, c')) :
    t = .cutTag ∨ ∃ name attributes isEmpty first last,
      t = .startTag name attributes isEmpty first last := by
  unfold startTag at h
  simp only [bind_eq_some_iff] at h
  obtain ⟨first, _, -, _, _, -, name, _, -, _, _, -, h⟩ := h
  split at h
  · exact .inl (pure_eq_some_iff.1 h).1.symm
  · simp only [bind_eq_some_iff] at h
    obtain ⟨⟨attributes, isEmpty⟩, _, -, last, _, -, h⟩ := h
    exact .inr ⟨name, attributes, isEmpty, first, last, (pure_eq_some_iff.1 h).1.symm⟩

/-- The tokens of a root element: none, or one tag, or a tag that opens the
    element and others behind it. -/
theorem rootElement_tokens {tokens : List Token} {c : Cursor}
    (h : rootElement n c = some (tokens, c')) :
    tokens = [] ∨ tokens = [.cutTag] ∨
      (∃ name attributes first last, tokens = [.startTag name attributes true first last]) ∨
      ∃ tag inner, tokens = tag :: inner ∧ tag.openBehind 0 = some 1 := by
  obtain ⟨seen, c₁, hlook, h⟩ := bind_eq_some_iff.1 h
  split at h
  · obtain ⟨tag, c₂, htag, h⟩ := bind_eq_some_iff.1 h
    rcases startTag_eq_some htag with rfl | ⟨name, attributes, isEmpty, first, last, rfl⟩
    · exact .inr (.inl (pure_eq_some_iff.1 h).1.symm)
    · cases isEmpty with
      | true =>
        exact .inr (.inr (.inl ⟨name, attributes, first, last, (pure_eq_some_iff.1 h).1.symm⟩))
      | false =>
        obtain ⟨inner, _, -, h⟩ := bind_eq_some_iff.1 h
        exact .inr (.inr (.inr ⟨_, inner, (pure_eq_some_iff.1 h).1.symm, rfl⟩))
  · exact .inl (pure_eq_some_iff.1 h).1.symm

/-- The entities of a document are read first, and then its root element. -/
theorem exists_rootElement {found : List Entity × List Token} {c : Cursor}
    (h : document n c = some (found, c')) :
    ∃ c₁ c₂, prolog n c = some (found.1, c₁) ∧ rootElement n c₁ = some (found.2, c₂) := by
  rw [document_eq] at h
  unfold body at h
  simp only [bind_eq_some_iff] at h
  obtain ⟨entities, c₁, hprolog, tokens, c₂, hroot, _, c₃, -, _, c₄, -, h⟩ := h
  split at h
  · obtain ⟨rfl, -⟩ := pure_eq_some_iff.1 h
    exact ⟨c₁, c₂, hprolog, hroot⟩
  · cases h

/-- Where the first token of a document is read. -/
theorem exists_of_document {entities : List Entity} {tag : Token} {inner : List Token} {c : Cursor}
    (h : document n c = some ((entities, tag :: inner), c')) :
    ∃ c₁ c₂, prolog n c = some (entities, c₁) ∧ startTag n c₁ = some (tag, c₂) := by
  obtain ⟨c₁, c₂, hprolog, hroot⟩ := exists_rootElement h
  refine ⟨c₁, ?_⟩
  obtain ⟨seen, c₃, hlook, hroot⟩ := bind_eq_some_iff.1 hroot
  obtain ⟨-, rfl⟩ := Prod.mk.inj (Option.some.inj hlook)
  split at hroot
  · obtain ⟨first, c₄, htag, hroot⟩ := bind_eq_some_iff.1 hroot
    obtain rfl : first = tag := by
      split at hroot
      · obtain ⟨_, _, -, hpure⟩ := bind_eq_some_iff.1 hroot
        exact (List.cons.inj (pure_eq_some_iff.1 hpure).1).1
      · exact (List.cons.inj (pure_eq_some_iff.1 hroot).1).1
    exact ⟨c₄, hprolog, htag⟩
  · cases (pure_eq_some_iff.1 hroot).1

end Scan

open Scan

/-- What lies behind a place lies behind every place before that. -/
theorem Laid.mono {chars : List Char} {place place' : Nat} {ts : List Token}
    (h : Laid chars place ts) (hle : place' ≤ place) : Laid chars place' ts := by
  cases h with
  | nil => exact .nil place'
  | cons first others => exact .cons (first.mono hle) others

/-- The root element of a text is open behind its tag: whatever comes behind the
    text, the document is read up to there, and then the content of the root. -/
structure OpensRoot (left : List Char) (entities : List Entity) (tag : Token) (c : Cursor) :
    Prop where
  /-- The content stands in the text. -/
  within : c.Within left
  /-- It ends with the text. -/
  length : c.offset + c.rest.length = left.length
  /-- The tag ends in the text. -/
  ends : tag.EndsBy left.length
  /-- The document is read if the content is, and what stands behind the root. -/
  reads : ∀ {behind : List Char} {n : Nat} {found : List Entity × List Token} {c' : Cursor},
    (left ++ behind).length < n → (document n ⟨left ++ behind, 0⟩ = some (found, c') ↔
      ∃ inner c₁, found = (entities, tag :: inner) ∧
        Reads n 0 ⟨c.rest ++ behind, c.offset⟩ inner c₁ ∧ misc n c₁ = some ((), c') ∧ c'.rest = [])

/-- A text of which the first token opens the root element. -/
theorem exists_opensRoot {left : List Char} {entities : List Entity} {tag : Token}
    {inner : List Token} (hopen : tag.openBehind 0 = some 1)
    (h : documentTokens left = some (entities, tag :: inner)) :
    ∃ c, OpensRoot left entities tag c := by
  obtain ⟨⟨_, c'⟩, hdocument, heq⟩ := Option.map_eq_some_iff.1 h
  obtain rfl : _ = (entities, tag :: inner) := heq
  obtain ⟨c₁, c₂, hprolog, htag⟩ := exists_of_document hdocument
  have hmarkup : tag.IsMarkup := by
    cases tag with
    | startTag => trivial
    | _ => cases hopen
  obtain ⟨k, rfl⟩ := (local_prolog (s := ⟨0, [], '>', 0⟩) rfl rfl (Nat.zero_le _)
    (Nat.le_refl _)).moves _ _ _ hprolog
  have hcloses := (carries_startTag (s := ⟨0, [], '>', 0⟩) rfl (Nat.le_refl _)).closes htag hmarkup
  have hwithin : (Cursor.mk left 0).Within left := List.prefix_refl left
  obtain ⟨hwithin', hlies⟩ := lays_startTag _ _ _ _ (hwithin.skip k) htag
  have hlength : c₂.offset + c₂.rest.length = left.length := by
    have hmore := List.length_pos_of_mem hcloses.mark_mem
    obtain ⟨j, hdrop, hoffset⟩ := hcloses
    have hbehind := congrArg List.length hdrop
    simp only [Cursor.skip_rest, Cursor.skip_offset, List.length_drop, List.length_cons] at *
    omega
  refine ⟨c₂, hwithin', hlength, ?_, fun {behind n' found c'} hn => ?_⟩
  · cases tag with
    | startTag name attributes isEmpty first last =>
      obtain ⟨-, horder, hlast, -⟩ := hlies
      exact ⟨horder, by omega⟩
    | _ => cases hopen
  · rw [List.length_append] at hn
    have hfuel : left.length + 1 ≤ n' := by omega
    have hsize : ((Cursor.mk left 0).skip k).rest.length < left.length + 1 := by
      change (left.drop k).length < _
      rw [List.length_drop]
      omega
    have hprolog' := (local_prolog (s := ⟨0, behind, '>', left.length + 1⟩) rfl rfl
      (Nat.le_refl _) hfuel).carries (Nat.lt_succ_self _) hprolog (.inr (.inl hcloses.mark_mem))
    have htag' := (carries_startTag (s := ⟨0, behind, '>', left.length + 1⟩) rfl hfuel).carries
      hsize htag (.inr (.inr hmarkup))
    have hid : tag.mapPlaces (· + 0) (· + 0) = tag := by cases tag <;> rfl
    rw [hid] at htag'
    exact document_eq_some_iff hprolog' htag' hopen

/-- What is read behind the tag that opens the root element. -/
theorem OpensRoot.reads_of_documentTokens {left behind : List Char}
    {entities entities' : List Entity} {tag : Token} {tokens : List Token} {c : Cursor}
    (hroot : OpensRoot left entities tag c)
    (h : documentTokens (left ++ behind) = some (entities', tokens)) :
    ∃ inner c₁ c', entities' = entities ∧ tokens = tag :: inner ∧
      Reads ((left ++ behind).length + 1) 0 ⟨c.rest ++ behind, c.offset⟩ inner c₁ ∧
      misc ((left ++ behind).length + 1) c₁ = some ((), c') ∧ c'.rest = [] := by
  obtain ⟨⟨_, c'⟩, hdocument, heq⟩ := Option.map_eq_some_iff.1 h
  obtain rfl : _ = (entities', tokens) := heq
  obtain ⟨inner, c₁, heq, hreads, hmisc, hend⟩ := (hroot.reads (Nat.lt_succ_self _)).1 hdocument
  obtain ⟨rfl, rfl⟩ := Prod.mk.inj heq
  exact ⟨inner, c₁, c', rfl, rfl, hreads, hmisc, hend⟩

/-- The tags of a text in which the root element is open end by its end. -/
theorem documentTokens_endsBy {left : List Char} {entities : List Entity} {tag : Token}
    {inner : List Token} (hopen : tag.openBehind 0 = some 1)
    (h : documentTokens left = some (entities, tag :: inner)) :
    ∀ t ∈ tag :: inner, t.EndsBy left.length := by
  obtain ⟨c, hroot⟩ := exists_opensRoot hopen h
  rw [← List.append_nil left] at h
  obtain ⟨_, _, _, -, heq, hreads, -⟩ := hroot.reads_of_documentTokens h
  obtain ⟨-, rfl⟩ := List.cons.inj heq
  simp only [List.append_nil] at hreads
  refine List.forall_mem_cons.2 ⟨hroot.ends, ?_⟩
  rw [← hroot.length]
  exact hreads.endsBy hroot.within

/-- The tags of an entity end by the end of the text it is declared in. -/
theorem contentTokens_endsBy {chars : List Char} {c : Cursor} {tokens : List Token}
    (hc : c.Within chars) (h : c.contentTokens = some tokens) :
    ∀ t ∈ tokens, t.EndsBy chars.length := by
  obtain ⟨⟨all, c'⟩, hcontent, rfl⟩ := Option.map_eq_some_iff.1 h
  obtain ⟨ts, rfl, hreads⟩ := content_eq_some_iff.1 hcontent
  intro t ht
  have hends := hreads.endsBy hc t ht
  -- a text with a token is not empty, so it stands inside the document
  have hmore : c.rest ≠ [] := by
    cases hreads with
    | stop => cases ht
    | last hmore => exact hmore
    | next hmore => exact hmore
  have hbefore := hc.offset_lt hmore
  have hlength := hc.length_le
  rw [List.length_drop] at hlength
  have hle : c.offset + c.rest.length ≤ chars.length := by omega
  cases t with
  | startTag name attributes isEmpty first last => exact ⟨hends.1, Nat.le_trans hends.2 hle⟩
  | endTag name last => exact Nat.le_trans hends hle
  | _ => trivial

/-- The tokens of a document that goes on behind a text, and those of the same
    document with a comment between. The last character data of the text may go on
    as well; everything behind it is only shifted. -/
structure GoesOn (left right : List Char) (entities : List Entity) (before tokens : List Token)
    (ts behind : List Token) (tail more : List Char) : Prop where
  /-- The tokens of the text; `tail` is character data at its end. -/
  before_eq : before = ts ++ textTokens tail
  /-- The tokens of the document, in which the character data goes on with `more`. -/
  tokens_eq : tokens = ts ++ textTokens (tail ++ more) ++ behind
  /-- The tokens behind the character data stand behind the text. -/
  laid : Laid (left ++ right) left.length behind
  /-- The tokens of the document with a comment. -/
  commented : ∀ comment, IsComment comment →
    documentTokens (left ++ (comment ++ right)) = some (entities, ts ++ textTokens tail ++
      .comment :: (textTokens more ++
        behind.map (Token.mapPlaces (· + comment.length) (· + comment.length))))

/-- A document goes on behind a text in which its root element is open, unless
    the text closes it. -/
theorem documentTokens_commented {left right : List Char} {entities entities' : List Entity}
    {tag : Token} {inner tokens : List Token} (hopen : tag.openBehind 0 = some 1)
    (hcut : .cutTag ∉ inner) (hleft : documentTokens left = some (entities, tag :: inner))
    (hwhole : documentTokens (left ++ right) = some (entities', tokens)) :
    entities' = entities ∧ (tokens = tag :: inner ∨ ∃ ts behind tail more,
      GoesOn left right entities (tag :: inner) tokens ts behind tail more) := by
  obtain ⟨c, hroot⟩ := exists_opensRoot hopen hleft
  rw [← List.append_nil left] at hleft
  obtain ⟨_, _, _, -, heq, hreads, -⟩ := hroot.reads_of_documentTokens hleft
  obtain ⟨-, rfl⟩ := List.cons.inj heq
  obtain ⟨inner', c₁, end₁, rfl, rfl, hreads', hmisc, hend⟩ := hroot.reads_of_documentTokens hwhole
  refine ⟨rfl, ?_⟩
  simp only [List.append_nil] at hreads
  have hn : left.length + 1 ≤ (left ++ right).length + 1 := by simp
  rcases hreads.complete_or_breaksOff hcut with hcomplete | ⟨ts, tail, place, k, rfl, hbreaks⟩
  · exact .inl (by rw [(hreads'.unique (hcomplete right _ hn)).1])
  obtain ⟨rest, rfl, hrest⟩ := (hbreaks.goesOn right _ _ _ hn).1 hreads'
  obtain ⟨more, behind, us, rfl, rfl, hbehind, hcommented⟩ := hrest.commented hbreaks.charData
  have hplace : place + (tail ++ more).length = left.length + more.length := by
    rw [List.length_append, ← Nat.add_assoc, hbreaks.length, hroot.length]
  rw [hplace] at hbehind
  have hwithin : (Cursor.mk behind (left.length + more.length)).Within
      (left ++ (more ++ behind)) := by
    unfold Cursor.Within
    simp [← List.drop_drop]
  obtain ⟨hwithin', hlaid⟩ := hbehind.laid hwithin
  refine .inr ⟨tag :: ts, us, tail, more, rfl, by simp, hlaid.mono (Nat.le_add_right _ _),
    fun comment hcomment => ?_⟩
  have hlong : 3 ≤ comment.length := by
    obtain ⟨content, rfl, -⟩ := hcomment
    simp only [List.length_append]
    change 3 ≤ 4 + content.length + 3
    omega
  have hfuel := hbreaks.fuel
  refine Option.map_eq_some_iff.2 ⟨(_, ⟨[], end₁.offset + comment.length⟩),
    (hroot.reads (Nat.lt_succ_self _)).2 ⟨_, ⟨c₁.rest, c₁.offset + comment.length⟩, rfl,
      (hbreaks.goesOn _ _ _ _ (by simp)).2 ⟨_, rfl, hcommented comment _ hcomment ?_⟩, ?_, rfl⟩, ?_⟩
  · simp only [List.length_append]
    omega
  · -- what stands behind the root element is only shifted
    have hbound : c₁.rest.length < (left ++ (more ++ behind)).length + 1 := by
      have hle := hwithin'.length_le
      rw [List.length_drop] at hle
      omega
    have hlonger : (left ++ (more ++ behind)).length + 1 ≤
        (left ++ (comment ++ (more ++ behind))).length + 1 := by simp
    have hshifted := (local_misc (s := ⟨comment.length, [], '>', _⟩) rfl (Nat.le_refl _)
      hlonger).carries hbound hmisc (.inl rfl)
    simpa [Surroundings.around, hend] using hshifted
  · simp

end EvalRun.Xml
