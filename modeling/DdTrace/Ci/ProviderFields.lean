import DdTrace.Ci.CIEnvironmentValues

/-!
# The fields of a provider

For each provider and field, the ways in which the provider's variables fill the field. Detection
is to complete, to leave every other field null, and to look at no variable of another provider.
It does so exactly where the two values that are taken apart have the parts the code counts on,
and where no variable is missing in a template.
-/

namespace DdTrace.Ci

open Lib

variable {δ : Type}

/-! ## The purpose -/

inductive Field where
  | provider
  | repository
  | commit
  | branch
  | tag
  | authorName
  | authorEmail
  | authorDate
  | committerName
  | committerEmail
  | committerDate
  | message
  | sourceRoot
  | pipelineId
  | pipelineName
  | pipelineNumber
  | pipelineUrl
  | jobUrl
  | jobName
  | stageName
  | workspacePath
  deriving DecidableEq, Repr

/-- The field is not null. -/
def CIEnvironmentValues.has (v : CIEnvironmentValues δ) : Field → Bool
  | .provider => v.provider.isSome
  | .repository => v.repository.isSome
  | .commit => v.commit.isSome
  | .branch => v.branch.isSome
  | .tag => v.tag.isSome
  | .authorName => v.authorName.isSome
  | .authorEmail => v.authorEmail.isSome
  | .authorDate => v.authorDate.isSome
  | .committerName => v.committerName.isSome
  | .committerEmail => v.committerEmail.isSome
  | .committerDate => v.committerDate.isSome
  | .message => v.message.isSome
  | .sourceRoot => v.sourceRoot.isSome
  | .pipelineId => v.pipelineId.isSome
  | .pipelineName => v.pipelineName.isSome
  | .pipelineNumber => v.pipelineNumber.isSome
  | .pipelineUrl => v.pipelineUrl.isSome
  | .jobUrl => v.jobUrl.isSome
  | .jobName => v.jobName.isSome
  | .stageName => v.stageName.isSome
  | .workspacePath => v.workspacePath.isSome

def GitInfo.has (gitInfo : GitInfo δ) : Field → Bool
  | .repository => gitInfo.repository.isSome
  | .commit => gitInfo.commit.isSome
  | .branch => gitInfo.branch.isSome
  | .authorName => gitInfo.authorName.isSome
  | .authorEmail => gitInfo.authorEmail.isSome
  | .authorDate => gitInfo.authorDate.isSome
  | .committerName => gitInfo.committerName.isSome
  | .committerEmail => gitInfo.committerEmail.isSome
  | .committerDate => gitInfo.committerDate.isSome
  | .message => gitInfo.message.isSome
  | .sourceRoot | .workspacePath => gitInfo.sourceRoot.isSome
  | _ => false

/-- What a field needs of a variable. -/
inductive Need where
  /-- It is there. -/
  | set (name : String)
  /-- It is there, and not empty. -/
  | filled (name : String)

def Need.Met (env : Environment) : Need → Prop
  | .set name => (env name).isSome = true
  | .filled name => isNullOrEmpty (env name) = false

/-- One of the ways is open: all that it needs is met. -/
def Open (env : Environment) (ways : List (List Need)) : Prop :=
  ∃ way ∈ ways, ∀ need ∈ way, need.Met env

/-- The ways of a field that is written as a template; `holes` says whether a template counts as
filled where a variable is missing. -/
def template (holes : Bool) (ways : List (List Need)) : List (List Need) :=
  if holes then [[]] else ways

def travisFields (holes : Bool) : Field → List (List Need)
  | .provider => [[]]
  | .repository =>
    template holes [[.filled "TRAVIS_PULL_REQUEST_SLUG"], [.set "TRAVIS_REPO_SLUG"]]
  | .commit => [[.set "TRAVIS_COMMIT"]]
  | .tag => [[.set "TRAVIS_TAG"]]
  | .branch => [[.set "TRAVIS_PULL_REQUEST_BRANCH"], [.set "TRAVIS_BRANCH"]]
  | .sourceRoot | .workspacePath => [[.set "TRAVIS_BUILD_DIR"]]
  | .pipelineId => [[.set "TRAVIS_BUILD_ID"]]
  | .pipelineNumber => [[.set "TRAVIS_BUILD_NUMBER"]]
  | .pipelineName => [[.filled "TRAVIS_PULL_REQUEST_SLUG"], [.set "TRAVIS_REPO_SLUG"]]
  | .pipelineUrl => [[.set "TRAVIS_BUILD_WEB_URL"]]
  | .jobUrl => [[.set "TRAVIS_JOB_WEB_URL"]]
  | .message => [[.set "TRAVIS_COMMIT_MESSAGE"]]
  | _ => []

def circleCiFields (holes : Bool) : Field → List (List Need)
  | .provider => [[]]
  | .repository => [[.set "CIRCLE_REPOSITORY_URL"]]
  | .commit => [[.set "CIRCLE_SHA1"]]
  | .tag => [[.set "CIRCLE_TAG"]]
  | .branch => [[.set "CIRCLE_BRANCH"]]
  | .sourceRoot | .workspacePath => [[.set "CIRCLE_WORKING_DIRECTORY"]]
  | .pipelineId => [[.set "CIRCLE_WORKFLOW_ID"]]
  | .pipelineName => [[.set "CIRCLE_PROJECT_REPONAME"]]
  | .pipelineUrl => template holes [[.set "CIRCLE_WORKFLOW_ID"]]
  | .jobName => [[.set "CIRCLE_JOB"]]
  | .jobUrl => [[.set "CIRCLE_BUILD_URL"]]
  | _ => []

def jenkinsFields : Field → List (List Need)
  | .provider => [[]]
  | .repository => [[.set "GIT_URL"], [.set "GIT_URL_1"]]
  | .commit => [[.set "GIT_COMMIT"]]
  | .branch | .tag => [[.set "GIT_BRANCH"]]
  | .sourceRoot | .workspacePath => [[.set "WORKSPACE"]]
  | .pipelineId => [[.set "BUILD_TAG"]]
  | .pipelineName => [[.set "JOB_NAME"]]
  | .pipelineNumber => [[.set "BUILD_NUMBER"]]
  | .pipelineUrl => [[.set "BUILD_URL"]]
  | _ => []

def gitlabFields : Field → List (List Need)
  | .provider => [[]]
  | .repository => [[.set "CI_REPOSITORY_URL"]]
  | .commit => [[.set "CI_COMMIT_SHA"]]
  | .branch => [[.set "CI_COMMIT_BRANCH"], [.set "CI_COMMIT_REF_NAME"]]
  | .tag => [[.set "CI_COMMIT_TAG"]]
  | .sourceRoot | .workspacePath => [[.set "CI_PROJECT_DIR"]]
  | .pipelineId => [[.set "CI_PIPELINE_ID"]]
  | .pipelineName => [[.set "CI_PROJECT_PATH"]]
  | .pipelineNumber => [[.set "CI_PIPELINE_IID"]]
  | .pipelineUrl => [[.set "CI_PIPELINE_URL"]]
  | .jobUrl => [[.set "CI_JOB_URL"]]
  | .jobName => [[.set "CI_JOB_NAME"]]
  | .stageName => [[.set "CI_JOB_STAGE"]]
  | .message => [[.set "CI_COMMIT_MESSAGE"]]
  | .authorName | .authorEmail => [[.set "CI_COMMIT_AUTHOR"]]
  | .authorDate => [[.filled "CI_COMMIT_TIMESTAMP"]]
  | _ => []

def appveyorFields (holes : Bool) : Field → List (List Need)
  | .provider => [[]]
  | .repository => template holes [[.set "APPVEYOR_REPO_NAME"]]
  | .commit => [[.set "APPVEYOR_REPO_COMMIT"]]
  | .sourceRoot | .workspacePath => [[.set "APPVEYOR_BUILD_FOLDER"]]
  | .pipelineId => [[.set "APPVEYOR_BUILD_ID"]]
  | .pipelineName => [[.set "APPVEYOR_REPO_NAME"]]
  | .pipelineNumber => [[.set "APPVEYOR_BUILD_NUMBER"]]
  | .pipelineUrl | .jobUrl =>
    template holes [[.set "APPVEYOR_REPO_NAME", .set "APPVEYOR_BUILD_ID"]]
  | .branch =>
    [[.set "APPVEYOR_PULL_REQUEST_HEAD_REPO_BRANCH"], [.set "APPVEYOR_REPO_BRANCH"]]
  | .tag => [[.set "APPVEYOR_REPO_TAG_NAME"]]
  | .message => [[.set "APPVEYOR_REPO_COMMIT_MESSAGE_EXTENDED"]]
  | .authorName => [[.set "APPVEYOR_REPO_COMMIT_AUTHOR"]]
  | .authorEmail => [[.set "APPVEYOR_REPO_COMMIT_AUTHOR_EMAIL"]]
  | _ => []

def azurePipelinesFields (holes : Bool) : Field → List (List Need)
  | .provider => [[]]
  | .sourceRoot | .workspacePath => [[.set "BUILD_SOURCESDIRECTORY"]]
  | .pipelineId | .pipelineNumber => [[.set "BUILD_BUILDID"]]
  | .pipelineName => [[.set "BUILD_DEFINITIONNAME"]]
  | .pipelineUrl => template holes [[.set "SYSTEM_TEAMFOUNDATIONSERVERURI",
      .set "SYSTEM_TEAMPROJECTID", .set "BUILD_BUILDID"]]
  | .stageName => [[.set "SYSTEM_STAGEDISPLAYNAME"]]
  | .jobName => [[.set "SYSTEM_JOBDISPLAYNAME"]]
  | .jobUrl => template holes [[.set "SYSTEM_TEAMFOUNDATIONSERVERURI",
      .set "SYSTEM_TEAMPROJECTID", .set "BUILD_BUILDID", .set "SYSTEM_JOBID",
      .set "SYSTEM_TASKINSTANCEID"]]
  | .repository =>
    [[.set "SYSTEM_PULLREQUEST_SOURCEREPOSITORYURI"], [.set "BUILD_REPOSITORY_URI"]]
  | .commit => [[.set "SYSTEM_PULLREQUEST_SOURCECOMMITID"], [.set "BUILD_SOURCEVERSION"]]
  | .branch => [[.set "SYSTEM_PULLREQUEST_SOURCEBRANCH"], [.set "BUILD_SOURCEBRANCH"],
      [.set "BUILD_SOURCEBRANCHNAME"]]
  | .message => [[.set "BUILD_SOURCEVERSIONMESSAGE"]]
  | .authorName => [[.set "BUILD_REQUESTEDFORID"]]
  | .authorEmail => [[.set "BUILD_REQUESTEDFOREMAIL"]]
  | _ => []

def bitbucketFields (holes : Bool) : Field → List (List Need)
  | .provider => [[]]
  | .repository => [[.set "BITBUCKET_GIT_SSH_ORIGIN"]]
  | .commit => [[.set "BITBUCKET_COMMIT"]]
  | .branch => [[.set "BITBUCKET_BRANCH"]]
  | .tag => [[.set "BITBUCKET_TAG"]]
  | .sourceRoot | .workspacePath => [[.set "BITBUCKET_CLONE_DIR"]]
  | .pipelineId => [[.set "BITBUCKET_PIPELINE_UUID"]]
  | .pipelineNumber => [[.set "BITBUCKET_BUILD_NUMBER"]]
  | .pipelineName => [[.set "BITBUCKET_REPO_FULL_NAME"]]
  | .pipelineUrl | .jobUrl =>
    template holes [[.set "BITBUCKET_REPO_FULL_NAME", .set "BITBUCKET_BUILD_NUMBER"]]
  | _ => []

def githubActionsFields (holes : Bool) : Field → List (List Need)
  | .provider => [[]]
  | .repository => template holes [[.set "GITHUB_REPOSITORY"]]
  | .commit => [[.set "GITHUB_SHA"]]
  | .branch | .tag => [[.set "GITHUB_HEAD_REF"], [.set "GITHUB_REF"]]
  | .sourceRoot | .workspacePath => [[.set "GITHUB_WORKSPACE"]]
  | .pipelineId => [[.set "GITHUB_RUN_ID"]]
  | .pipelineNumber => [[.set "GITHUB_RUN_NUMBER"]]
  | .pipelineName => [[.set "GITHUB_WORKFLOW"]]
  | .pipelineUrl | .jobUrl => template holes [[.set "GITHUB_REPOSITORY", .set "GITHUB_SHA"]]
  | _ => []

def teamcityFields : Field → List (List Need)
  | .provider => [[]]
  | .repository | .workspacePath => [[.set "BUILD_VCS_URL"]]
  | .commit => [[.set "BUILD_VCS_NUMBER"]]
  | .sourceRoot => [[.set "BUILD_CHECKOUTDIR"]]
  | .pipelineId => [[.set "BUILD_ID"]]
  | .pipelineNumber => [[.set "BUILD_NUMBER"]]
  | .pipelineUrl => [[.set "BUILD_ID", .set "SERVER_URL"]]
  | _ => []

def buildkiteFields (holes : Bool) : Field → List (List Need)
  | .provider => [[]]
  | .repository => [[.set "BUILDKITE_REPO"]]
  | .commit => [[.set "BUILDKITE_COMMIT"]]
  | .branch => [[.set "BUILDKITE_BRANCH"]]
  | .tag => [[.set "BUILDKITE_TAG"]]
  | .sourceRoot | .workspacePath => [[.set "BUILDKITE_BUILD_CHECKOUT_PATH"]]
  | .pipelineId => [[.set "BUILDKITE_BUILD_ID"]]
  | .pipelineNumber => [[.set "BUILDKITE_BUILD_NUMBER"]]
  | .pipelineName => [[.set "BUILDKITE_PIPELINE_SLUG"]]
  | .pipelineUrl => [[.set "BUILDKITE_BUILD_URL"]]
  | .jobUrl => template holes [[.set "BUILDKITE_BUILD_URL", .set "BUILDKITE_JOB_ID"]]
  | .message => [[.set "BUILDKITE_MESSAGE"]]
  | .authorName => [[.set "BUILDKITE_BUILD_AUTHOR"]]
  | .authorEmail => [[.set "BUILDKITE_BUILD_AUTHOR_EMAIL"]]
  | _ => []

def bitriseFields : Field → List (List Need)
  | .provider => [[]]
  | .repository => [[.set "GIT_REPOSITORY_URL"]]
  | .commit => [[.set "BITRISE_GIT_COMMIT"], [.set "GIT_CLONE_COMMIT_HASH"]]
  | .branch => [[.set "BITRISEIO_GIT_BRANCH_DEST"], [.set "BITRISE_GIT_BRANCH"]]
  | .tag => [[.set "BITRISE_GIT_TAG"]]
  | .sourceRoot | .workspacePath => [[.set "BITRISE_SOURCE_DIR"]]
  | .pipelineId => [[.set "BITRISE_BUILD_SLUG"]]
  | .pipelineNumber => [[.set "BITRISE_BUILD_NUMBER"]]
  | .pipelineName => [[.set "BITRISE_TRIGGERED_WORKFLOW_ID"]]
  | .pipelineUrl => [[.set "BITRISE_BUILD_URL"]]
  | .message => [[.set "BITRISE_GIT_MESSAGE"]]
  | _ => []

/-- The ways in which the provider's own variables fill a field. -/
def Provider.fields (holes : Bool) : Provider → Field → List (List Need)
  | .travis => travisFields holes
  | .circleCi => circleCiFields holes
  | .jenkins => jenkinsFields
  | .gitlab => gitlabFields
  | .appveyor => appveyorFields holes
  | .azurePipelines => azurePipelinesFields holes
  | .bitbucket => bitbucketFields holes
  | .githubActions => githubActionsFields holes
  | .teamcity => teamcityFields
  | .buildkite => buildkiteFields holes
  | .bitrise => bitriseFields
  | .gitOnly => fun _ => []

/-- What git may add to any provider. -/
def authorship : List Field :=
  [.authorName, .authorEmail, .authorDate, .committerName, .committerEmail, .committerDate,
    .message]

/-- The user's own variable. -/
def customVariable : Field → Option String
  | .branch => some "DD_GIT_BRANCH"
  | .tag => some "DD_GIT_TAG"
  | .repository => some "DD_GIT_REPOSITORY_URL"
  | .commit => some "DD_GIT_COMMIT_SHA"
  | .message => some "DD_GIT_COMMIT_MESSAGE"
  | .authorName => some "DD_GIT_COMMIT_AUTHOR_NAME"
  | .authorEmail => some "DD_GIT_COMMIT_AUTHOR_EMAIL"
  | .authorDate => some "DD_GIT_COMMIT_AUTHOR_DATE"
  | .committerName => some "DD_GIT_COMMIT_COMMITTER_NAME"
  | .committerEmail => some "DD_GIT_COMMIT_COMMITTER_EMAIL"
  | .committerDate => some "DD_GIT_COMMIT_COMMITTER_DATE"
  | _ => none

def Customised (env : Environment) (f : Field) : Prop :=
  ∃ name ∈ customVariable f, isNullOrEmpty (env name) = false

/-- Something gives the field a value: the provider, git, or the user. -/
def Supplied (holes : Bool) (env : Environment) (gitInfo : GitInfo δ) (p : Provider)
    (f : Field) : Prop :=
  Open env (p.fields holes f) ∨ ((p = .gitOnly ∨ f ∈ authorship) ∧ gitInfo.has f = true) ∨
    Customised env f

/-- A branch may be the name of a tag. -/
def Justified (holes : Bool) (env : Environment) (gitInfo : GitInfo δ) (p : Provider)
    (f : Field) : Prop :=
  Supplied holes env gitInfo p f ∨ f = .tag ∧ Supplied holes env gitInfo p .branch

/-- The variables of the provider. -/
def Provider.variableNames : Provider → List String
  | .travis => ["TRAVIS_PULL_REQUEST_SLUG", "TRAVIS_REPO_SLUG", "TRAVIS_COMMIT", "TRAVIS_TAG",
      "TRAVIS_PULL_REQUEST_BRANCH", "TRAVIS_BRANCH", "TRAVIS_BUILD_DIR", "TRAVIS_BUILD_ID",
      "TRAVIS_BUILD_NUMBER", "TRAVIS_BUILD_WEB_URL", "TRAVIS_JOB_WEB_URL",
      "TRAVIS_COMMIT_MESSAGE"]
  | .circleCi => ["CIRCLE_REPOSITORY_URL", "CIRCLE_SHA1", "CIRCLE_TAG", "CIRCLE_BRANCH",
      "CIRCLE_WORKING_DIRECTORY", "CIRCLE_WORKFLOW_ID", "CIRCLE_PROJECT_REPONAME", "CIRCLE_JOB",
      "CIRCLE_BUILD_URL"]
  | .jenkins => ["GIT_URL", "GIT_URL_1", "GIT_COMMIT", "GIT_BRANCH", "WORKSPACE", "BUILD_TAG",
      "BUILD_NUMBER", "BUILD_URL", "JOB_NAME"]
  | .gitlab => ["CI_REPOSITORY_URL", "CI_COMMIT_SHA", "CI_COMMIT_BRANCH", "CI_COMMIT_TAG",
      "CI_COMMIT_REF_NAME", "CI_PROJECT_DIR", "CI_PIPELINE_ID", "CI_PROJECT_PATH",
      "CI_PIPELINE_IID", "CI_PIPELINE_URL", "CI_JOB_URL", "CI_JOB_NAME", "CI_JOB_STAGE",
      "CI_COMMIT_MESSAGE", "CI_COMMIT_AUTHOR", "CI_COMMIT_TIMESTAMP"]
  | .appveyor => ["APPVEYOR_REPO_PROVIDER", "APPVEYOR_REPO_NAME", "APPVEYOR_REPO_COMMIT",
      "APPVEYOR_BUILD_FOLDER", "APPVEYOR_BUILD_ID", "APPVEYOR_BUILD_NUMBER",
      "APPVEYOR_PULL_REQUEST_HEAD_REPO_BRANCH", "APPVEYOR_REPO_TAG_NAME",
      "APPVEYOR_REPO_BRANCH", "APPVEYOR_REPO_COMMIT_MESSAGE_EXTENDED",
      "APPVEYOR_REPO_COMMIT_AUTHOR", "APPVEYOR_REPO_COMMIT_AUTHOR_EMAIL"]
  | .azurePipelines => ["BUILD_SOURCESDIRECTORY", "BUILD_BUILDID", "BUILD_DEFINITIONNAME",
      "SYSTEM_TEAMFOUNDATIONSERVERURI", "SYSTEM_TEAMPROJECTID", "SYSTEM_STAGEDISPLAYNAME",
      "SYSTEM_JOBDISPLAYNAME", "SYSTEM_JOBID", "SYSTEM_TASKINSTANCEID",
      "SYSTEM_PULLREQUEST_SOURCEREPOSITORYURI", "BUILD_REPOSITORY_URI",
      "SYSTEM_PULLREQUEST_SOURCECOMMITID", "BUILD_SOURCEVERSION",
      "SYSTEM_PULLREQUEST_SOURCEBRANCH", "BUILD_SOURCEBRANCH", "BUILD_SOURCEBRANCHNAME",
      "BUILD_SOURCEVERSIONMESSAGE", "BUILD_REQUESTEDFORID", "BUILD_REQUESTEDFOREMAIL"]
  | .bitbucket => ["BITBUCKET_GIT_SSH_ORIGIN", "BITBUCKET_COMMIT", "BITBUCKET_BRANCH",
      "BITBUCKET_TAG", "BITBUCKET_CLONE_DIR", "BITBUCKET_PIPELINE_UUID",
      "BITBUCKET_BUILD_NUMBER", "BITBUCKET_REPO_FULL_NAME"]
  | .githubActions => ["GITHUB_REPOSITORY", "GITHUB_SHA", "GITHUB_HEAD_REF", "GITHUB_REF",
      "GITHUB_WORKSPACE", "GITHUB_RUN_ID", "GITHUB_RUN_NUMBER", "GITHUB_WORKFLOW"]
  | .teamcity => ["BUILD_VCS_URL", "BUILD_VCS_NUMBER", "BUILD_CHECKOUTDIR", "BUILD_ID",
      "BUILD_NUMBER", "SERVER_URL"]
  | .buildkite => ["BUILDKITE_REPO", "BUILDKITE_COMMIT", "BUILDKITE_BRANCH", "BUILDKITE_TAG",
      "BUILDKITE_BUILD_CHECKOUT_PATH", "BUILDKITE_BUILD_ID", "BUILDKITE_BUILD_NUMBER",
      "BUILDKITE_PIPELINE_SLUG", "BUILDKITE_BUILD_URL", "BUILDKITE_JOB_ID",
      "BUILDKITE_MESSAGE", "BUILDKITE_BUILD_AUTHOR", "BUILDKITE_BUILD_AUTHOR_EMAIL"]
  | .bitrise => ["GIT_REPOSITORY_URL", "BITRISE_GIT_COMMIT", "GIT_CLONE_COMMIT_HASH",
      "BITRISEIO_GIT_BRANCH_DEST", "BITRISE_GIT_BRANCH", "BITRISE_GIT_TAG",
      "BITRISE_SOURCE_DIR", "BITRISE_BUILD_SLUG", "BITRISE_BUILD_NUMBER",
      "BITRISE_TRIGGERED_WORKFLOW_ID", "BITRISE_BUILD_URL", "BITRISE_GIT_MESSAGE"]
  | .gitOnly => []

/-- The variables that are read whatever the provider. -/
def commonVariables : List String :=
  ["HOME", "USERPROFILE", "DD_GIT_BRANCH", "DD_GIT_TAG", "DD_GIT_REPOSITORY_URL",
    "DD_GIT_COMMIT_SHA", "DD_GIT_COMMIT_MESSAGE", "DD_GIT_COMMIT_AUTHOR_NAME",
    "DD_GIT_COMMIT_AUTHOR_EMAIL", "DD_GIT_COMMIT_AUTHOR_DATE", "DD_GIT_COMMIT_COMMITTER_NAME",
    "DD_GIT_COMMIT_COMMITTER_EMAIL", "DD_GIT_COMMIT_COMMITTER_DATE"]

/-- Detection completes, what it fills is supplied, and no other provider has a part in it. -/
structure Loads (holes : Bool) (runtime : Runtime δ) (env : Environment) (gitInfo : GitInfo δ)
    (isCI : Bool) : Prop where
  completes : ∃ v, reloadEnvironmentData runtime env gitInfo isCI = .ok v
  filled : ∀ v, reloadEnvironmentData runtime env gitInfo isCI = .ok v →
    ∀ f, v.has f = true → Justified holes env gitInfo (detect env) f
  own : ∀ env' : Environment, detect env' = detect env →
    (∀ name ∈ (detect env).variableNames ++ commonVariables, env' name = env name) →
    reloadEnvironmentData runtime env' gitInfo isCI = reloadEnvironmentData runtime env gitInfo isCI

/-! ## Where it is served -/

/-- The author is there, with an angle bracket in it. -/
def AuthorOk (env : Environment) : Prop :=
  ∃ author, env "CI_COMMIT_AUTHOR" = some author ∧ (unit '<' ∈ author ∨ unit '>' ∈ author)

/-- The second part of the name of the job, without the branch, has a `=` between any two commas
or none at all. -/
def JobNameOk (env : Environment) : Prop :=
  ∀ jobName, env "JOB_NAME" = some jobName →
    ∀ part, ((jobNameNoBranch (cleanBranch (jenkinsBranchAndTag env).1 none).1 jobName).splitOn
      (unit '/'))[1]? = some part →
    unit '=' ∈ part → ∀ piece ∈ part.splitOn (unit ','), unit '=' ∈ piece

/-- What a provider takes apart has its parts. -/
def PartsOk (env : Environment) : Provider → Prop
  | .jenkins => JobNameOk env
  | .gitlab => AuthorOk env
  | _ => True

/-- No variable is missing in a template. -/
def TemplatesOk (env : Environment) : Provider → Prop
  | .travis => isNullOrEmpty (env "DD_GIT_REPOSITORY_URL") = false ∨
      isNullOrEmpty (env "TRAVIS_PULL_REQUEST_SLUG") = false ∨
      (env "TRAVIS_REPO_SLUG").isSome = true
  | .circleCi => (env "CIRCLE_WORKFLOW_ID").isSome = true
  | .appveyor => (env "APPVEYOR_REPO_NAME").isSome = true ∧ (env "APPVEYOR_BUILD_ID").isSome = true
  | .azurePipelines => ∀ name ∈ ["SYSTEM_TEAMFOUNDATIONSERVERURI", "SYSTEM_TEAMPROJECTID",
      "BUILD_BUILDID", "SYSTEM_JOBID", "SYSTEM_TASKINSTANCEID"], (env name).isSome = true
  | .bitbucket => (env "BITBUCKET_REPO_FULL_NAME").isSome = true ∧
      (env "BITBUCKET_BUILD_NUMBER").isSome = true
  | .githubActions => (env "GITHUB_REPOSITORY").isSome = true
  | .buildkite => (env "BUILDKITE_BUILD_URL").isSome = true ∧
      (env "BUILDKITE_JOB_ID").isSome = true
  | _ => True

/-! ## Splitting -/

section Splitting

variable {α : Type} {p q : α → Bool}

/-- There are two pieces exactly where there is a separator. -/
theorem one_lt_length_splitOnP {s : List α} : 1 < (s.splitOnP p).length ↔ ∃ c ∈ s, p c = true := by
  constructor
  · intro h
    by_contra hnone
    rw [List.splitOnP_eq_singleton fun c hc => by simpa using fun hp => hnone ⟨c, hc, hp⟩] at h
    simp at h
  · rintro ⟨c, hc, hp⟩
    obtain ⟨front, rest, rfl⟩ := List.append_of_mem hc
    have h1 := List.length_pos_of_ne_nil (List.splitOnP_ne_nil p front)
    have h2 := List.length_pos_of_ne_nil (List.splitOnP_ne_nil p rest)
    rw [List.splitOnP_append_cons _ _ hp, List.length_append]
    omega

/-- A filter that keeps the separators goes through the pieces. -/
theorem splitOnP_filter (h : ∀ c, p c = true → q c = true) (s : List α) :
    (s.filter q).splitOnP p = (s.splitOnP p).map (List.filter q) := by
  induction s with
  | nil => rfl
  | cons c s ih =>
    by_cases hp : p c = true
    · rw [List.filter_cons_of_pos (h c hp), List.splitOnP_cons_eq_if_modifyHead, List.splitOnP_cons_eq_if_modifyHead, if_pos hp,
        if_pos hp, ih]
      rfl
    · obtain ⟨piece, pieces, hpieces⟩ := List.exists_cons_of_ne_nil (List.splitOnP_ne_nil p s)
      rw [List.splitOnP_cons_eq_if_modifyHead, if_neg hp]
      by_cases hq : q c = true
      · rw [List.filter_cons_of_pos hq, List.splitOnP_cons_eq_if_modifyHead, if_neg hp, ih, hpieces]
        simp [hq]
      · rw [List.filter_cons_of_neg hq, ih, hpieces]
        simp [hq]

end Splitting

theorem exists_element {xs : List Text} {i : ℕ} : (∃ x, element xs i = .ok x) ↔ i < xs.length := by
  unfold element
  constructor
  · rintro ⟨x, hx⟩
    split at hx
    · rename_i hi
      exact (List.getElem?_eq_some_iff.1 hi).1
    · cases hx
  · intro hi
    rw [List.getElem?_eq_getElem hi]
    exact ⟨_, rfl⟩

/-! ## The configurations of a job -/

theorem filter_trim {s : Text} : (trim s).filter isSeparator = s.filter isSeparator := by
  have hwhite : ∀ t : Text, (t.dropWhile Lib.isWhiteSpace).filter isSeparator =
      t.filter isSeparator := by
    intro t
    have hfront : (t.takeWhile Lib.isWhiteSpace).filter isSeparator = [] := by
      rw [List.filter_eq_nil_iff]
      intro c hc hsep
      have hspace := List.mem_takeWhile_imp hc
      revert hspace
      simp only [isSeparator, Bool.or_eq_true, beq_iff_eq] at hsep
      rcases hsep with rfl | rfl <;> decide
    have happend := congrArg (List.filter isSeparator)
      (List.takeWhile_append_dropWhile (p := Lib.isWhiteSpace) (l := t))
    rw [List.filter_append, hfront, List.nil_append] at happend
    exact happend
  rw [trim, List.filter_reverse, hwhite, List.filter_reverse, List.reverse_reverse, hwhite]

theorem equals_mem_filter {s : Text} : unit '=' ∈ s.filter isSeparator ↔ unit '=' ∈ s := by
  rw [List.mem_filter]
  exact and_iff_left (by decide)

/-- Whether each piece has its `=` can be read off the separators. -/
theorem forall_pieces_filter {s : Text} :
    (∀ piece ∈ (s.filter isSeparator).splitOn (unit ','), unit '=' ∈ piece) ↔
      ∀ piece ∈ s.splitOn (unit ','), unit '=' ∈ piece := by
  have hkeep : ∀ c : UInt16, (c == unit ',') = true → isSeparator c = true := by
    intro c hc
    rw [isSeparator, hc, Bool.true_or]
  rw [List.splitOn_eq_splitOnP, splitOnP_filter hkeep, List.forall_mem_map,
    ← List.splitOn_eq_splitOnP]
  exact forall₂_congr fun piece _ => equals_mem_filter

theorem bind_eq_ok {ε α β : Type} {x : Except ε α} {f : α → Except ε β} {b : β} :
    x >>= f = .ok b ↔ ∃ a, x = .ok a ∧ f a = .ok b := by
  cases x with
  | error e => exact ⟨fun h => (nomatch h), fun ⟨_, h, _⟩ => (nomatch h)⟩
  | ok a => exact ⟨fun h => ⟨a, rfl, h⟩, fun ⟨_, h, hf⟩ => by cases h; exact hf⟩

theorem exists_bind_ok {ε α β : Type} {x : Except ε α} {f : α → Except ε β} :
    (∃ b, x >>= f = .ok b) ↔ ∃ a, x = .ok a ∧ ∃ b, f a = .ok b := by
  constructor
  · rintro ⟨b, hb⟩
    obtain ⟨a, ha, hb⟩ := bind_eq_ok.1 hb
    exact ⟨a, ha, b, hb⟩
  · rintro ⟨a, ha, b, hb⟩
    exact ⟨b, bind_eq_ok.2 ⟨a, ha, hb⟩⟩

theorem addConfiguration_ok {d : Dictionary Text Text} {piece : Text} :
    (∃ d', addConfiguration d piece = .ok d') ↔ unit '=' ∈ piece := by
  have htrim : unit '=' ∈ trim piece ↔ unit '=' ∈ piece := by
    rw [← equals_mem_filter, filter_trim, equals_mem_filter]
  have hparts : unit '=' ∈ trim piece ↔ 1 < ((trim piece).splitOn (unit '=')).length := by
    rw [List.splitOn_eq_splitOnP, one_lt_length_splitOnP]
    simp
  rw [← htrim, hparts, addConfiguration]
  constructor
  · rintro ⟨d', hd⟩
    obtain ⟨key, -, hd⟩ := bind_eq_ok.1 hd
    obtain ⟨value, hvalue, -⟩ := bind_eq_ok.1 hd
    exact exists_element.1 ⟨value, hvalue⟩
  · intro hlen
    obtain ⟨key, hkey⟩ := exists_element.2 (Nat.lt_trans Nat.one_pos hlen)
    obtain ⟨value, hvalue⟩ := exists_element.2 hlen
    exact ⟨d.set key value, by rw [hkey, hvalue]; rfl⟩

/-- The loop completes where each of its rounds does. -/
theorem addConfigurations_ok (pieces : List Text) (d : Dictionary Text Text) :
    (∃ d', pieces.foldlM addConfiguration d = .ok d') ↔ ∀ piece ∈ pieces, unit '=' ∈ piece := by
  induction pieces generalizing d with
  | nil => exact ⟨fun _ _ h => absurd h List.not_mem_nil, fun _ => ⟨d, rfl⟩⟩
  | cons piece pieces ih =>
    rw [List.forall_mem_cons]
    constructor
    · rintro ⟨d', hd⟩
      rw [List.foldlM_cons] at hd
      obtain ⟨d₁, hpiece, hd⟩ := bind_eq_ok.1 hd
      exact ⟨addConfiguration_ok.1 ⟨d₁, hpiece⟩, (ih d₁).1 ⟨d', hd⟩⟩
    · rintro ⟨hpiece, hpieces⟩
      obtain ⟨d₁, hd₁⟩ := (@addConfiguration_ok d piece).2 hpiece
      obtain ⟨d', hd⟩ := (ih d₁).2 hpieces
      exact ⟨d', by rw [List.foldlM_cons, hd₁]; exact hd⟩

theorem jobConfigurations_ok (runtime : Runtime δ) (parts : List Text) :
    (∃ d, jobConfigurations runtime parts = .ok d) ↔
      ∀ part, parts[1]? = some part → unit '=' ∈ part →
        ∀ piece ∈ part.splitOn (unit ','), unit '=' ∈ piece := by
  unfold jobConfigurations
  cases hpart : parts[1]? with
  | none => exact ⟨fun _ _ h => (nomatch h), fun _ => ⟨∅, rfl⟩⟩
  | some part =>
    simp only [Option.some.injEq, forall_eq']
    by_cases hequals : unit '=' ∈ part
    · rw [if_pos hequals, addConfigurations_ok, ← forall_pieces_filter, filter_trim,
        runtime.filter_toLowerInvariant, forall_pieces_filter]
      exact ⟨fun h _ => h, fun h => h hequals⟩
    · rw [if_neg hequals]
      exact ⟨fun _ h => absurd h hequals, fun _ => ⟨∅, rfl⟩⟩

/-! ## Which providers complete -/

variable {runtime : Runtime δ} {env : Environment} {gitInfo : GitInfo δ} {isCI holes : Bool}
  {v v' : CIEnvironmentValues δ} {f : Field} {p : Provider}

theorem element_zero_splitOn (s : Text) (c : UInt16) : ∃ x, element (s.splitOn c) 0 = .ok x :=
  exists_element.2 (List.length_pos_of_ne_nil (List.splitOn_ne_nil c s))

/-- The branch that is taken out of the name of the job. -/
theorem jenkins_branch : (cleanBranchAndTag (jenkinsBranchAndTag env).1
    (jenkinsBranchAndTag env).2).1 = (cleanBranch (jenkinsBranchAndTag env).1 none).1 := by
  unfold jenkinsBranchAndTag
  by_cases htags : (env "GIT_BRANCH").map containsTags = some true
  · simp only [if_pos htags]
    rfl
  · simp only [if_neg htags]
    rfl

theorem setupJenkinsEnvironment_ok :
    (∃ v', setupJenkinsEnvironment runtime env v = .ok v') ↔ JobNameOk env := by
  unfold setupJenkinsEnvironment JobNameOk
  cases hname : env "JOB_NAME" with
  | none => exact ⟨fun _ _ h => (nomatch h), fun _ => ⟨_, rfl⟩⟩
  | some jobName =>
    simp only [Option.some.injEq, forall_eq']
    rw [← jobConfigurations_ok runtime, ← jenkins_branch]
    constructor
    · rintro ⟨v', hv⟩
      obtain ⟨d, hd, -⟩ := bind_eq_ok.1 hv
      exact ⟨d, hd⟩
    · rintro ⟨d, hd⟩
      refine exists_bind_ok.2 ⟨d, hd, ?_⟩
      split
      · exact ⟨_, rfl⟩
      · obtain ⟨first, hfirst⟩ := element_zero_splitOn _ _
        exact exists_bind_ok.2 ⟨first, hfirst, _, rfl⟩

theorem setupGitlabEnvironment_ok :
    (∃ v', setupGitlabEnvironment runtime env v = .ok v') ↔ AuthorOk env := by
  unfold setupGitlabEnvironment AuthorOk
  cases hauthor : env "CI_COMMIT_AUTHOR" with
  | none => exact ⟨fun ⟨_, h⟩ => (nomatch h), fun ⟨_, h, _⟩ => (nomatch h)⟩
  | some author =>
    have hbracket : (unit '<' ∈ author ∨ unit '>' ∈ author) ↔ 1 < (splitAuthor author).length := by
      rw [splitAuthor, one_lt_length_splitOnP]
      simp only [Bool.or_eq_true, beq_iff_eq, and_or_left, exists_or, exists_eq_right]
    simp only [Option.some.injEq, exists_eq_left', hbracket]
    constructor
    · rintro ⟨v', hv⟩
      obtain ⟨authorName, -, hv⟩ := bind_eq_ok.1 hv
      obtain ⟨authorEmail, hemail, -⟩ := bind_eq_ok.1 hv
      exact exists_element.1 ⟨authorEmail, hemail⟩
    · intro hlen
      obtain ⟨authorName, hname⟩ := exists_element.2 (Nat.lt_trans Nat.one_pos hlen)
      obtain ⟨authorEmail, hemail⟩ := exists_element.2 hlen
      rw [hname, hemail]
      exact ⟨_, rfl⟩

theorem setup_ok : (∃ v', setup runtime env gitInfo v p = .ok v') ↔ PartsOk env p := by
  cases p with
  | jenkins => exact setupJenkinsEnvironment_ok
  | gitlab => exact setupGitlabEnvironment_ok
  | _ => exact ⟨fun _ => trivial, fun _ => ⟨_, rfl⟩⟩

/-- A path is expanded without an exception, and to none only from none. -/
theorem expandPath_ok (path : Option Text) :
    ∃ path', expandPath runtime env path = .ok path' ∧ path'.isSome = path.isSome := by
  unfold expandPath
  split
  · rename_i htilde
    have hlen : 1 ≤ (orEmpty path).length := by
      rcases htilde with rfl | hstarts
      · exact Nat.le_refl 1
      · cases path with
        | none => cases hstarts
        | some s =>
          cases s with
          | nil =>
            have hfalse := runtime.startsWith_nil.symm.trans (Option.some.inj hstarts)
            cases hfalse
          | cons c s => exact Nat.succ_le_succ (Nat.zero_le _)
    have hsome : path.isSome = true := by
      rcases htilde with rfl | hstarts
      · rfl
      · cases path with
        | none => cases hstarts
        | some s => rfl
    rw [substring, if_pos hlen, hsome]
    exact ⟨_, rfl, rfl⟩
  · exact ⟨path, rfl, rfl⟩

/-! ## What is left of the fields -/

/-- The fields that a provider writes as templates. -/
def templateFields : List Field := [.repository, .pipelineUrl, .jobUrl]

theorem isSome_ite_or {α : Type} {c : Prop} [Decidable c] {a b : Option α}
    (h : (if c then a else b).isSome = true) : a.isSome = true ∨ b.isSome = true := by
  split at h
  · exact .inl h
  · exact .inr h

theorem has_addGitInfo (h : (v.addGitInfo gitInfo).has f = true) :
    v.has f = true ∨ f ∈ authorship ∧ gitInfo.has f = true := by
  unfold CIEnvironmentValues.addGitInfo at h
  split at h
  · cases f <;> first
      | exact .inl h
      | exact (isSome_ite_or h).symm.imp_right fun hgit => ⟨by decide, hgit⟩
  · exact .inl h

theorem has_removeUserInfo : (v.removeUserInfo runtime).has f = v.has f := by
  unfold CIEnvironmentValues.removeUserInfo
  split
  · rename_i uri huri
    split
    · cases hrepository : v.repository with
      | none =>
        rw [hrepository] at huri
        cases huri
      | some repository => cases f <;> simp [CIEnvironmentValues.has, hrepository]
    · rfl
  · rfl

theorem isSome_custom {key : String} {value : Option Text}
    (h : (getEnvironmentVariableIfIsNotEmpty env key value).isSome = true) :
    value.isSome = true ∨ isNullOrEmpty (env key) = false := by
  unfold getEnvironmentVariableIfIsNotEmpty at h
  cases hempty : isNullOrEmpty (env key) with
  | true =>
    rw [hempty] at h
    exact .inl h
  | false => exact .inr rfl

theorem isSome_customDate {key : String} {value : Option δ}
    (h : (getDateTimeOffsetEnvironmentVariableIfIsNotEmpty runtime env key value).isSome = true) :
    value.isSome = true ∨ isNullOrEmpty (env key) = false := by
  unfold getDateTimeOffsetEnvironmentVariableIfIsNotEmpty at h
  cases hempty : isNullOrEmpty (env key) with
  | true =>
    rw [hempty] at h
    exact .inl h
  | false => exact .inr rfl

theorem has_custom (h : (v.custom runtime env).has f = true) :
    v.has f = true ∨ Customised env f := by
  cases f <;> first
    | exact .inl h
    | exact (isSome_custom h).imp_right fun hkey => ⟨_, rfl, hkey⟩
    | exact (isSome_customDate h).imp_right fun hkey => ⟨_, rfl, hkey⟩

theorem isSome_cleanTag {tag : Option Text} : (cleanTag tag).isSome = tag.isSome := by
  unfold cleanTag
  split
  · rfl
  · split
    · cases tag with
      | none => simp [isNullOrEmpty] at *
      | some tag => rfl
    · rfl

theorem isSome_cleanBranch {branch tag : Option Text} :
    (cleanBranch branch tag).1.isSome = branch.isSome ∧
      ((cleanBranch branch tag).2.isSome = true → tag.isSome = true ∨ branch.isSome = true) := by
  unfold cleanBranch
  cases branch with
  | none => exact ⟨rfl, .inl⟩
  | some branch =>
    refine ⟨?_, fun _ => .inr rfl⟩
    split
    · rfl
    · split
      · rfl
      · rfl

theorem has_cleanBranchAndTag (h : v.cleanBranchAndTag.has f = true) :
    v.has f = true ∨ f = .tag ∧ v.has .branch = true := by
  have hclean := @isSome_cleanBranch v.branch (cleanTag v.tag)
  cases f with
  | branch => exact .inl (hclean.1.symm.trans h)
  | tag =>
    rcases hclean.2 h with htag | hbranch
    · exact .inl (isSome_cleanTag.symm.trans htag)
    · exact .inr ⟨rfl, hbranch⟩
  | _ => exact .inl h

/-- The values with their paths expanded. -/
def CIEnvironmentValues.withPaths (v : CIEnvironmentValues δ)
    (sourceRoot workspacePath : Option Text) : CIEnvironmentValues δ :=
  { v with sourceRoot := sourceRoot, workspacePath := workspacePath }

theorem has_withPaths {sourceRoot workspacePath : Option Text}
    (hsource : sourceRoot.isSome = v.sourceRoot.isSome)
    (hworkspace : workspacePath.isSome = v.workspacePath.isSome) :
    (v.withPaths sourceRoot workspacePath).has f = v.has f := by
  cases f with
  | sourceRoot => exact hsource
  | workspacePath => exact hworkspace
  | _ => rfl

/-- The steps behind the provider never throw. -/
theorem reload_of_setup (h : setup runtime env gitInfo { isCI := isCI } (detect env) = .ok v) :
    ∃ sourceRoot workspacePath,
      reloadEnvironmentData runtime env gitInfo isCI = .ok
        (((((v.addGitInfo gitInfo).removeUserInfo runtime).withPaths sourceRoot
          workspacePath).custom runtime env).cleanBranchAndTag) ∧
      ∀ f, (((v.addGitInfo gitInfo).removeUserInfo runtime).withPaths sourceRoot
        workspacePath).has f = (v.addGitInfo gitInfo).has f := by
  obtain ⟨sourceRoot, hsource, hsource'⟩ := @expandPath_ok δ runtime env
    ((v.addGitInfo gitInfo).removeUserInfo runtime).sourceRoot
  obtain ⟨workspacePath, hworkspace, hworkspace'⟩ := @expandPath_ok δ runtime env
    ((v.addGitInfo gitInfo).removeUserInfo runtime).workspacePath
  refine ⟨sourceRoot, workspacePath, ?_, fun f => ?_⟩
  · exact bind_eq_ok.2 ⟨v, h, bind_eq_ok.2 ⟨sourceRoot, hsource,
      bind_eq_ok.2 ⟨workspacePath, hworkspace, rfl⟩⟩⟩
  · rw [has_withPaths hsource' hworkspace', has_removeUserInfo]

/-- Where the fields are from, if not from the provider. -/
theorem has_final (h : ((v.custom runtime env).cleanBranchAndTag).has f = true) :
    (v.has f = true ∨ Customised env f) ∨
      f = .tag ∧ (v.has .branch = true ∨ Customised env .branch) := by
  rcases has_cleanBranchAndTag h with hsame | ⟨htag, hbranch⟩
  · exact .inl (has_custom hsame)
  · exact .inr ⟨htag, has_custom hbranch⟩

theorem isSome_custom_of {key : String} {value : Option Text} (h : value.isSome = true) :
    (getEnvironmentVariableIfIsNotEmpty env key value).isSome = true := by
  unfold getEnvironmentVariableIfIsNotEmpty
  split
  · exact h
  · rename_i hkey
    cases hvalue : env key with
    | none =>
      rw [hvalue] at hkey
      exact absurd rfl hkey
    | some s => rfl

/-- A template that is written stays. -/
theorem has_template (hf : f ∈ templateFields)
    (hpaths : ∀ f, v'.has f = (v.addGitInfo gitInfo).has f) (h : v.has f = true) :
    ((v'.custom runtime env).cleanBranchAndTag).has f = true := by
  have hgit : (v.addGitInfo gitInfo).has f = v.has f := by
    unfold CIEnvironmentValues.addGitInfo
    split
    · revert hf
      cases f <;> first | exact fun _ => rfl | exact fun hf => absurd hf (by decide)
    · rfl
  have hv' : v'.has f = true := by rw [hpaths, hgit, h]
  revert hf
  cases f with
  | repository => exact fun _ => isSome_custom_of hv'
  | pipelineUrl => exact fun _ => hv'
  | jobUrl => exact fun _ => hv'
  | _ => exact fun hf => absurd hf (by decide)

/-! ## What the providers fill -/

@[simp] theorem not_open_nil : ¬ Open env [] := fun ⟨_, h, _⟩ => nomatch h

@[simp] theorem open_cons {way : List Need} {ways : List (List Need)} :
    Open env (way :: ways) ↔ (∀ need ∈ way, need.Met env) ∨ Open env ways := by
  simp only [Open, List.exists_mem_cons_iff]

@[simp] theorem open_template {ways : List (List Need)} :
    Open env (template holes ways) ↔ holes = true ∨ Open env ways := by
  cases holes <;> simp [template]

@[simp] theorem met_set {name : String} : (Need.set name).Met env ↔ (env name).isSome = true :=
  Iff.rfl

@[simp] theorem met_filled {name : String} :
    (Need.filled name).Met env ↔ isNullOrEmpty (env name) = false := Iff.rfl

/-- The values before the first provider is asked. -/
def nothing (δ : Type) (isCI : Bool) : CIEnvironmentValues δ := { isCI := isCI }

theorem travis_has (ht : holes = false → TemplatesOk env .travis)
    (h : (setupTravisEnvironment env (nothing δ isCI)).has f = true) :
    Open env (travisFields holes f) ∨
      f = .repository ∧ isNullOrEmpty (env "DD_GIT_REPOSITORY_URL") = false := by
  cases f <;>
    simp_all [CIEnvironmentValues.has, setupTravisEnvironment, nothing, travisFields,
      TemplatesOk] <;>
    grind

theorem circleCi_has (ht : holes = false → TemplatesOk env .circleCi)
    (h : (setupCircleCiEnvironment env (nothing δ isCI)).has f = true) :
    Open env (circleCiFields holes f) := by
  cases f <;>
    simp_all [CIEnvironmentValues.has, setupCircleCiEnvironment, nothing, circleCiFields,
      TemplatesOk] <;>
    grind

theorem appveyor_has (ht : holes = false → TemplatesOk env .appveyor)
    (h : (setupAppveyorEnvironment env (nothing δ isCI)).has f = true) :
    Open env (appveyorFields holes f) := by
  cases f <;>
    simp_all [CIEnvironmentValues.has, setupAppveyorEnvironment, nothing, appveyorFields,
      TemplatesOk] <;>
    grind

theorem azurePipelines_has (ht : holes = false → TemplatesOk env .azurePipelines)
    (h : (setupAzurePipelinesEnvironment env (nothing δ isCI)).has f = true) :
    Open env (azurePipelinesFields holes f) := by
  cases f <;>
    simp_all [CIEnvironmentValues.has, setupAzurePipelinesEnvironment, nothing,
      azurePipelinesFields, TemplatesOk] <;>
    grind

theorem bitbucket_has (ht : holes = false → TemplatesOk env .bitbucket)
    (h : (setupBitbucketEnvironment env (nothing δ isCI)).has f = true) :
    Open env (bitbucketFields holes f) := by
  cases f <;>
    simp_all [CIEnvironmentValues.has, setupBitbucketEnvironment, nothing, bitbucketFields,
      TemplatesOk] <;>
    grind

theorem githubActions_has (hsha : (env "GITHUB_SHA").isSome = true)
    (ht : holes = false → TemplatesOk env .githubActions)
    (h : (setupGithubActionsEnvironment env (nothing δ isCI)).has f = true) :
    Open env (githubActionsFields holes f) := by
  cases f <;>
    simp_all [CIEnvironmentValues.has, setupGithubActionsEnvironment, nothing,
      githubActionsFields, TemplatesOk] <;>
    grind

theorem teamcity_has (h : (setupTeamcityEnvironment env (nothing δ isCI)).has f = true) :
    Open env (teamcityFields f) := by
  cases f <;>
    simp_all [CIEnvironmentValues.has, setupTeamcityEnvironment, nothing, teamcityFields]
  grind

theorem buildkite_has (ht : holes = false → TemplatesOk env .buildkite)
    (h : (setupBuildkiteEnvironment env (nothing δ isCI)).has f = true) :
    Open env (buildkiteFields holes f) := by
  cases f <;>
    simp_all [CIEnvironmentValues.has, setupBuildkiteEnvironment, nothing, buildkiteFields,
      TemplatesOk]
  grind

theorem bitrise_has (h : (setupBitriseEnvironment env (nothing δ isCI)).has f = true) :
    Open env (bitriseFields f) := by
  cases f <;>
    simp_all [CIEnvironmentValues.has, setupBitriseEnvironment, nothing, bitriseFields]
  all_goals grind

theorem gitlab_has (hv : setupGitlabEnvironment runtime env (nothing δ isCI) = .ok v)
    (h : v.has f = true) : Open env (gitlabFields f) := by
  unfold setupGitlabEnvironment at hv
  cases hauthor : env "CI_COMMIT_AUTHOR" with
  | none =>
    rw [hauthor] at hv
    cases hv
  | some author =>
    rw [hauthor] at hv
    obtain ⟨authorName, -, hv⟩ := bind_eq_ok.1 hv
    obtain ⟨authorEmail, -, hv⟩ := bind_eq_ok.1 hv
    cases hv
    cases f <;>
      simp_all [CIEnvironmentValues.has, nothing, gitlabFields,
        getDateTimeOffsetEnvironmentVariableIfIsNotEmpty] <;>
      grind

theorem jenkinsValues_has (h : (jenkinsValues env (nothing δ isCI)).has f = true) :
    Open env (jenkinsFields f) := by
  cases f <;>
    simp_all [CIEnvironmentValues.has, jenkinsValues, nothing, jenkinsFields,
      jenkinsBranchAndTag] <;>
    grind

theorem jenkins_has (hv : setupJenkinsEnvironment runtime env (nothing δ isCI) = .ok v)
    (h : v.has f = true) : Open env (jenkinsFields f) := by
  unfold setupJenkinsEnvironment at hv
  cases hname : env "JOB_NAME" with
  | none =>
    rw [hname] at hv
    cases hv
    exact jenkinsValues_has h
  | some jobName =>
    rw [hname] at hv
    obtain ⟨d, -, hv⟩ := bind_eq_ok.1 hv
    have hnamed : ∃ name, { (jenkinsValues env (nothing δ isCI)).cleanBranchAndTag with
        pipelineName := some name } = v := by
      split at hv
      · exact ⟨_, Except.ok.inj hv⟩
      · obtain ⟨first, -, hv⟩ := bind_eq_ok.1 hv
        exact ⟨first, Except.ok.inj hv⟩
    obtain ⟨name, rfl⟩ := hnamed
    by_cases hf : f = .pipelineName
    · rw [hf]
      simp [jenkinsFields, hname]
    · have hclean : (jenkinsValues env (nothing δ isCI)).cleanBranchAndTag.has f = true := by
        revert h
        cases f <;> first | exact fun h => h | exact absurd rfl hf
      rcases has_cleanBranchAndTag hclean with hraw | ⟨rfl, hbranch⟩
      · exact jenkinsValues_has hraw
      · exact @jenkinsValues_has δ env isCI .branch hbranch

theorem githubSha_of_detect (h : detect env = .githubActions) :
    (env "GITHUB_SHA").isSome = true := by
  by_contra hsha
  unfold detect at h
  rw [if_neg hsha] at h
  split_ifs at h

/-- What the provider fills is supplied, if no template has a hole. -/
theorem has_setup (hp : detect env = p) (ht : holes = false → TemplatesOk env p)
    (hv : setup runtime env gitInfo (nothing δ isCI) p = .ok v) (h : v.has f = true) :
    Supplied holes env gitInfo p f := by
  cases p with
  | travis =>
    cases hv
    rcases travis_has ht h with hopen | ⟨rfl, hcustom⟩
    · exact .inl hopen
    · exact .inr (.inr ⟨_, rfl, hcustom⟩)
  | circleCi =>
    cases hv
    exact .inl (circleCi_has ht h)
  | jenkins => exact .inl (jenkins_has hv h)
  | gitlab => exact .inl (gitlab_has hv h)
  | appveyor =>
    cases hv
    exact .inl (appveyor_has ht h)
  | azurePipelines =>
    cases hv
    exact .inl (azurePipelines_has ht h)
  | bitbucket =>
    cases hv
    exact .inl (bitbucket_has ht h)
  | githubActions =>
    cases hv
    exact .inl (githubActions_has (githubSha_of_detect hp) ht h)
  | teamcity =>
    cases hv
    exact .inl (teamcity_has h)
  | buildkite =>
    cases hv
    exact .inl (buildkite_has ht h)
  | bitrise =>
    cases hv
    exact .inl (bitrise_has h)
  | gitOnly =>
    cases hv
    refine .inr (.inl ⟨.inl rfl, ?_⟩)
    revert h
    cases f <;> first | exact fun h => h | exact fun h => nomatch h

/-- What a template field of a provider may be supplied from. -/
theorem supplied_template (hf : f ∈ templateFields) (hp : p ≠ .gitOnly) :
    Supplied holes env gitInfo p f ↔ Open env (p.fields holes f) ∨ Customised env f := by
  have hnot : f ∉ authorship := by
    revert hf
    cases f <;> decide
  simp [Supplied, hnot, hp]

theorem customised_repository : Customised env .repository ↔
    isNullOrEmpty (env "DD_GIT_REPOSITORY_URL") = false := by
  simp [Customised, customVariable]

theorem not_customised (hf : customVariable f = none) : ¬ Customised env f := by
  rintro ⟨name, hname, -⟩
  rw [hf] at hname
  cases hname

/-- A hole is seen in a field that has nothing else to be filled from. -/
theorem templatesOk_of_supplied (hv : setup runtime env gitInfo (nothing δ isCI) p = .ok v)
    (h : ∀ f ∈ templateFields, v.has f = true → Supplied false env gitInfo p f) :
    TemplatesOk env p := by
  have hurl : ∀ f, f = .pipelineUrl ∨ f = .jobUrl → p ≠ .gitOnly → v.has f = true →
      Open env (p.fields false f) := by
    rintro f (rfl | rfl) hp hf
    · exact ((supplied_template (by decide) hp).1 (h _ (by decide) hf)).resolve_right
        (not_customised rfl)
    · exact ((supplied_template (by decide) hp).1 (h _ (by decide) hf)).resolve_right
        (not_customised rfl)
  cases p with
  | travis =>
    cases hv
    have hrepository := (supplied_template (p := .travis) (by decide) nofun).1
      (h .repository (by decide) rfl)
    rw [customised_repository] at hrepository
    simpa [Provider.fields, travisFields, TemplatesOk, or_comm, or_assoc] using hrepository
  | circleCi =>
    cases hv
    simpa [Provider.fields, circleCiFields, TemplatesOk] using
      hurl .pipelineUrl (.inl rfl) nofun rfl
  | appveyor =>
    cases hv
    simpa [Provider.fields, appveyorFields, TemplatesOk] using
      hurl .pipelineUrl (.inl rfl) nofun rfl
  | azurePipelines =>
    cases hv
    simpa [Provider.fields, azurePipelinesFields, TemplatesOk] using
      hurl .jobUrl (.inr rfl) nofun rfl
  | bitbucket =>
    cases hv
    simpa [Provider.fields, bitbucketFields, TemplatesOk] using
      hurl .pipelineUrl (.inl rfl) nofun rfl
  | githubActions =>
    cases hv
    have hopen := hurl .pipelineUrl (.inl rfl) nofun rfl
    simp [Provider.fields, githubActionsFields] at hopen
    exact hopen.1
  | buildkite =>
    cases hv
    simpa [Provider.fields, buildkiteFields, TemplatesOk] using
      hurl .jobUrl (.inr rfl) nofun rfl
  | _ => trivial

/-! ## What is looked at -/

section Congruence

variable {env' : Environment}

theorem setup_congr (h : ∀ name ∈ p.variableNames, env' name = env name) :
    setup runtime env' gitInfo v p = setup runtime env gitInfo v p := by
  cases p with
  | travis =>
    simp only [Provider.variableNames, List.forall_mem_cons] at h
    simp only [setup, setupTravisEnvironment, h]
  | circleCi =>
    simp only [Provider.variableNames, List.forall_mem_cons] at h
    simp only [setup, setupCircleCiEnvironment, h]
  | jenkins =>
    simp only [Provider.variableNames, List.forall_mem_cons] at h
    simp only [setup, setupJenkinsEnvironment, jenkinsValues, jenkinsBranchAndTag, h]
  | gitlab =>
    simp only [Provider.variableNames, List.forall_mem_cons] at h
    simp only [setup, setupGitlabEnvironment, getDateTimeOffsetEnvironmentVariableIfIsNotEmpty, h]
    cases env "CI_COMMIT_AUTHOR" <;> rfl
  | appveyor =>
    simp only [Provider.variableNames, List.forall_mem_cons] at h
    simp only [setup, setupAppveyorEnvironment, h]
  | azurePipelines =>
    simp only [Provider.variableNames, List.forall_mem_cons] at h
    simp only [setup, setupAzurePipelinesEnvironment, h]
  | bitbucket =>
    simp only [Provider.variableNames, List.forall_mem_cons] at h
    simp only [setup, setupBitbucketEnvironment, h]
  | githubActions =>
    simp only [Provider.variableNames, List.forall_mem_cons] at h
    simp only [setup, setupGithubActionsEnvironment, h]
  | teamcity =>
    simp only [Provider.variableNames, List.forall_mem_cons] at h
    simp only [setup, setupTeamcityEnvironment, h]
  | buildkite =>
    simp only [Provider.variableNames, List.forall_mem_cons] at h
    simp only [setup, setupBuildkiteEnvironment, h]
  | bitrise =>
    simp only [Provider.variableNames, List.forall_mem_cons] at h
    simp only [setup, setupBitriseEnvironment, h]
  | gitOnly => rfl

theorem custom_congr (h : ∀ name ∈ commonVariables, env' name = env name) :
    v.custom runtime env' = v.custom runtime env := by
  simp only [commonVariables, List.forall_mem_cons] at h
  simp only [CIEnvironmentValues.custom, getEnvironmentVariableIfIsNotEmpty,
    getDateTimeOffsetEnvironmentVariableIfIsNotEmpty, h]

theorem expandPath_congr (h : ∀ name ∈ commonVariables, env' name = env name) :
    expandPath runtime env' = expandPath runtime env := by
  simp only [commonVariables, List.forall_mem_cons] at h
  funext path
  simp only [expandPath, h]

theorem reloadEnvironmentData_congr (hdetect : detect env' = detect env)
    (h : ∀ name ∈ (detect env).variableNames ++ commonVariables, env' name = env name) :
    reloadEnvironmentData runtime env' gitInfo isCI =
      reloadEnvironmentData runtime env gitInfo isCI := by
  rw [List.forall_mem_append] at h
  unfold reloadEnvironmentData
  rw [hdetect, setup_congr h.1, expandPath_congr h.2]
  simp only [custom_congr h.2]

end Congruence

/-! ## The law -/

/-- Both readings of a template in which a variable is missing. -/
theorem reloadEnvironmentData_loads_iff (holes : Bool) (runtime : Runtime δ) (env : Environment)
    (gitInfo : GitInfo δ) (isCI : Bool) :
    Loads holes runtime env gitInfo isCI ↔
      PartsOk env (detect env) ∧ (holes = false → TemplatesOk env (detect env)) := by
  constructor
  · intro h
    obtain ⟨v', hv'⟩ := h.completes
    obtain ⟨v, hv, -⟩ := bind_eq_ok.1 hv'
    refine ⟨setup_ok.1 ⟨v, hv⟩, ?_⟩
    rintro rfl
    obtain ⟨sourceRoot, workspacePath, hrun, hpaths⟩ := reload_of_setup hv
    refine templatesOk_of_supplied hv fun f hf hfield => ?_
    rcases h.filled _ hrun f (has_template hf hpaths hfield) with hsupplied | ⟨rfl, -⟩
    · exact hsupplied
    · exact absurd hf (by decide)
  · rintro ⟨hparts, htemplates⟩
    obtain ⟨v, hv⟩ := setup_ok.2 hparts
    obtain ⟨sourceRoot, workspacePath, hrun, hpaths⟩ := reload_of_setup hv
    have hsupplied : ∀ f, (v.addGitInfo gitInfo).has f = true ∨ Customised env f →
        Supplied holes env gitInfo (detect env) f := by
      rintro f (hfield | hcustom)
      · rcases has_addGitInfo hfield with hsetup | ⟨hf, hgit⟩
        · exact has_setup rfl htemplates hv hsetup
        · exact .inr (.inl ⟨.inr hf, hgit⟩)
      · exact .inr (.inr hcustom)
    refine ⟨⟨_, hrun⟩, fun v' hv' f hf => ?_, fun env' => reloadEnvironmentData_congr⟩
    obtain rfl := Except.ok.inj (hrun.symm.trans hv')
    rcases has_final hf with hsame | ⟨htag, hbranch⟩
    · exact .inl (hsupplied f (by rwa [hpaths] at hsame))
    · exact .inr ⟨htag, hsupplied .branch (by rwa [hpaths] at hbranch)⟩

/-- An environment of just these variables. -/
def environment (entries : List (String × String)) : Environment :=
  fun name => (entries.lookup name).map text

/-- A runtime that leaves what it is given as it is. -/
def plainRuntime : Runtime ℕ where
  tryCreate _ := none
  tryParseExact _ := none
  startsWith s start := start.isPrefixOf s
  startsWith_nil := rfl
  toLowerInvariant s := s
  filter_toLowerInvariant _ := rfl
  unix := true

def noGitInfo : GitInfo ℕ :=
  ⟨none, none, none, none, none, none, none, none, none, none, none⟩

/-- GitLab without an author or with one that has no address, a job of Jenkins with a comma too
many, and CircleCI without a workflow. -/
theorem not_loads :
    reloadEnvironmentData plainRuntime (environment [("GITLAB_CI", "true")]) noGitInfo false =
      .error .nullReference ∧
    reloadEnvironmentData plainRuntime
      (environment [("GITLAB_CI", "true"), ("CI_COMMIT_AUTHOR", "john")]) noGitInfo false =
      .error .indexOutOfRange ∧
    reloadEnvironmentData plainRuntime
      (environment [("JENKINS_URL", "http://j"), ("JOB_NAME", "job/k=v,l")]) noGitInfo false =
      .error .indexOutOfRange ∧
    (∀ holes, ¬ Loads holes plainRuntime (environment [("GITLAB_CI", "true")]) noGitInfo false) ∧
    (∀ holes, ¬ Loads holes plainRuntime
      (environment [("GITLAB_CI", "true"), ("CI_COMMIT_AUTHOR", "john")]) noGitInfo false) ∧
    (∀ holes, ¬ Loads holes plainRuntime
      (environment [("JENKINS_URL", "http://j"), ("JOB_NAME", "job/k=v,l")]) noGitInfo false) ∧
    ¬ Loads false plainRuntime (environment [("CIRCLECI", "true")]) noGitInfo false := by
  refine ⟨rfl, rfl, rfl, ?_, ?_, ?_, ?_⟩
  · rintro holes ⟨⟨v, hv⟩, -, -⟩
    cases hv
  · rintro holes ⟨⟨v, hv⟩, -, -⟩
    cases hv
  · rintro holes ⟨⟨v, hv⟩, -, -⟩
    cases hv
  · rintro ⟨-, hfilled, -⟩
    rcases hfilled _ rfl .pipelineUrl rfl with hsupplied | ⟨hf, -⟩
    · have htemplate : Field.pipelineUrl ∈ templateFields := by decide
      rcases (supplied_template (p := .circleCi) htemplate nofun).1 hsupplied with hopen | hcustom
      · simp [Provider.fields, environment, circleCiFields] at hopen
      · exact not_customised rfl hcustom
    · cases hf

end DdTrace.Ci
