import NavQuery.Space.Family

/-!
The parts of a step are rebuilt first, then the step with its new parts is finished. A kernel stays the
kernel in its place among those of its space. A space that occurs several times is rebuilt once.
-/

namespace NavQuery

structure Finish where
  space : Space → Space → Result Space
  code : Code → Code → Result Code

def Code.kernelPlace (kernel : Code) (space : Space) : Result Nat :=
  require (space.family.kernels.findIdx? (· == kernel)) .kernelOfSpace

def Code.kernelAt (mark : Mark) (space : Space) (place : Nat) : Result Code := do
  return .kernel mark (← require space.family.kernels[place]? .kernelOfSpace) space

variable (f : Finish)

mutual

def Space.rebuild : Space → Result Space
  | .root m => f.space (.root m) (.root m)
  | .scalar m b => do f.space (.scalar m b) (.scalar m (← b.rebuild))
  | .table m b t => do f.space (.table m b t) (.table m (← b.rebuild) t)
  | .fiber m b j => do f.space (.fiber m b j) (.fiber m (← b.rebuild) j)
  | .quotient m b s ks cs => do
    f.space (.quotient m b s ks cs)
      (.quotient m (← b.rebuild) (← s.rebuild) (← Code.rebuildAll ks) cs)
  | .complement m b cs => do f.space (.complement m b cs) (.complement m (← b.rebuild) cs)
  | .moniker m b s cs => do
    f.space (.moniker m b s cs) (.moniker m (← b.rebuild) (← s.rebuild) cs)
  | .forked m b s ks cs => do
    f.space (.forked m b s ks cs)
      (.forked m (← b.rebuild) (← s.rebuild) (← Code.rebuildAll ks) cs)
  | .linked m b s is cs => do
    f.space (.linked m b s is cs)
      (.linked m (← b.rebuild) (← s.rebuild) (← Code.rebuildImages is) cs)
  | .filtered m b c => do
    f.space (.filtered m b c) (.filtered m (← b.rebuild) (← c.rebuild))
  | .ordered m b os l o => do
    f.space (.ordered m b os l o) (.ordered m (← b.rebuild) (← Code.rebuildOrder os) l o)

def Code.rebuild : Code → Result Code
  | .missing => f.code .missing .missing
  | .literal m d v => f.code (.literal m d v) (.literal m d v)
  | .parameter m d n => f.code (.parameter m d n) (.parameter m d n)
  | .cast m d c => do f.code (.cast m d c) (.cast m d (← c.rebuild))
  | .formula m d o as => do f.code (.formula m d o as) (.formula m d o (← Code.rebuildAll as))
  | .correlation m c => do f.code (.correlation m c) (.correlation m (← c.rebuild))
  | .column m d c s => do f.code (.column m d c s) (.column m d c (← s.rebuild))
  | .single m c s cs => do
    f.code (.single m c s cs) (.single m (← c.rebuild) (← s.rebuild) cs)
  | .aggregate m c p s cs => do
    f.code (.aggregate m c p s cs)
      (.aggregate m (← c.rebuild) (← p.rebuild) (← s.rebuild) cs)
  | .correlated m c p s => do
    f.code (.correlated m c p s) (.correlated m (← c.rebuild) (← p.rebuild) (← s.rebuild))
  | .kernel m c s => do
    let place ← c.kernelPlace s
    f.code (.kernel m c s) (← Code.kernelAt m (← s.rebuild) place)
  | .covering m c s => do
    f.code (.covering m c s) (.covering m (← c.rebuild) (← s.rebuild))

def Code.rebuildAll : List Code → Result (List Code)
  | [] => pure []
  | c :: cs => do return (← c.rebuild) :: (← Code.rebuildAll cs)

def Code.rebuildImages : List (Code × Code) → Result (List Image)
  | [] => pure []
  | i :: is => do return (← Code.rebuildImage i) :: (← Code.rebuildImages is)

def Code.rebuildImage : Code × Code → Result Image
  | (a, b) => do return (← a.rebuild, ← b.rebuild)

def Code.rebuildOrder : List (Code × Direction) → Result (List OrderItem)
  | [] => pure []
  | o :: os => do return (← Code.rebuildItem o) :: (← Code.rebuildOrder os)

def Code.rebuildItem : Code × Direction → Result OrderItem
  | (c, d) => do return (← c.rebuild, d)

end

mutual

def Space.toRebuilt (s : Space) : Recall (Space.rebuild f) (ValueOf (Space.rebuild f) s) :=
  Recall.value s fun () =>
    match s with
    | .root _ => pure ⟨_, rfl⟩
    | .scalar m b => .bind (fun b' => f.space (.scalar m b) (.scalar m b')) b.toRebuilt
    | .table m b t => .bind (fun b' => f.space (.table m b t) (.table m b' t)) b.toRebuilt
    | .fiber m b j => .bind (fun b' => f.space (.fiber m b j) (.fiber m b' j)) b.toRebuilt
    | .quotient m b s ks cs =>
      .bind₃ (fun b' s' ks' => f.space (.quotient m b s ks cs) (.quotient m b' s' ks' cs)) b.toRebuilt
        s.toRebuilt (Code.toRebuiltAll ks)
    | .complement m b cs => .bind (fun b' => f.space (.complement m b cs) (.complement m b' cs)) b.toRebuilt
    | .moniker m b s cs =>
      .bind₂ (fun b' s' => f.space (.moniker m b s cs) (.moniker m b' s' cs)) b.toRebuilt s.toRebuilt
    | .forked m b s ks cs =>
      .bind₃ (fun b' s' ks' => f.space (.forked m b s ks cs) (.forked m b' s' ks' cs)) b.toRebuilt
        s.toRebuilt (Code.toRebuiltAll ks)
    | .linked m b s is cs =>
      .bind₃ (fun b' s' is' => f.space (.linked m b s is cs) (.linked m b' s' is' cs)) b.toRebuilt
        s.toRebuilt (Code.toRebuiltImages is)
    | .filtered m b c =>
      .bind₂ (fun b' c' => f.space (.filtered m b c) (.filtered m b' c')) b.toRebuilt c.toRebuilt
    | .ordered m b os l o =>
      .bind₂ (fun b' os' => f.space (.ordered m b os l o) (.ordered m b' os' l o)) b.toRebuilt
        (Code.toRebuiltOrder os)

def Code.toRebuilt (c : Code) : Recall (Space.rebuild f) (ValueOf (Code.rebuild f) c) :=
  match c with
  | .missing | .literal _ _ _ | .parameter _ _ _ => pure ⟨_, rfl⟩
  | .cast m d c => .bind (fun c' => f.code (.cast m d c) (.cast m d c')) c.toRebuilt
  | .formula m d o as =>
    .bind (fun as' => f.code (.formula m d o as) (.formula m d o as')) (Code.toRebuiltAll as)
  | .correlation m c => .bind (fun c' => f.code (.correlation m c) (.correlation m c')) c.toRebuilt
  | .column m d c s => .bind (fun s' => f.code (.column m d c s) (.column m d c s')) s.toRebuilt
  | .single m c s cs =>
    .bind₂ (fun c' s' => f.code (.single m c s cs) (.single m c' s' cs)) c.toRebuilt s.toRebuilt
  | .aggregate m c p s cs =>
    .bind₃ (fun c' p' s' => f.code (.aggregate m c p s cs) (.aggregate m c' p' s' cs)) c.toRebuilt
      p.toRebuilt s.toRebuilt
  | .correlated m c p s =>
    .bind₃ (fun c' p' s' => f.code (.correlated m c p s) (.correlated m c' p' s')) c.toRebuilt
      p.toRebuilt s.toRebuilt
  | .kernel m c s =>
    .map (fun s' => do
      let place ← c.kernelPlace s
      f.code (.kernel m c s) (← Code.kernelAt m (← s') place)) s.toRebuilt
  | .covering m c s =>
    .bind₂ (fun c' s' => f.code (.covering m c s) (.covering m c' s')) c.toRebuilt s.toRebuilt

def Code.toRebuiltAll (cs : List Code) : Recall (Space.rebuild f) (ValueOf (Code.rebuildAll f) cs) :=
  match cs with
  | [] => pure ⟨_, rfl⟩
  | c :: cs => .bind₂ (fun c' cs' => pure (c' :: cs')) c.toRebuilt (Code.toRebuiltAll cs)

def Code.toRebuiltImages (is : List (Code × Code)) :
    Recall (Space.rebuild f) (ValueOf (Code.rebuildImages f) is) :=
  match is with
  | [] => pure ⟨_, rfl⟩
  | i :: is => .bind₂ (fun i' is' => pure (i' :: is')) (Code.toRebuiltImage i) (Code.toRebuiltImages is)

def Code.toRebuiltImage (i : Code × Code) : Recall (Space.rebuild f) (ValueOf (Code.rebuildImage f) i) :=
  match i with
  | (a, b) => .bind₂ (fun a' b' => pure (a', b')) a.toRebuilt b.toRebuilt

def Code.toRebuiltOrder (os : List (Code × Direction)) :
    Recall (Space.rebuild f) (ValueOf (Code.rebuildOrder f) os) :=
  match os with
  | [] => pure ⟨_, rfl⟩
  | o :: os => .bind₂ (fun o' os' => pure (o' :: os')) (Code.toRebuiltItem o) (Code.toRebuiltOrder os)

def Code.toRebuiltItem (o : Code × Direction) : Recall (Space.rebuild f) (ValueOf (Code.rebuildItem f) o) :=
  match o with
  | (c, d) => .bind (fun c' => pure (c', d)) c.toRebuilt

end

end NavQuery
