import DdTrace.Lib.Dictionary
import DdTrace.Ci.CleanBranchAndTag
import Mathlib.Data.List.Infix

/-!
# The environment of a CI provider

`ReloadEnvironmentData` looks for the first provider one of whose variables is there, takes the
fields of the build from that provider's variables, adds what the git folder says, and lets the
user's own variables have the last word (CIEnvironmentValues.cs). A `null` is `none`.
-/

namespace DdTrace.Ci

open Lib

/-- `GetEnvironmentVariable`: the variables of the process. -/
abbrev Environment := String → Option Text

inductive CIException where
  | nullReference
  | indexOutOfRange
  | argumentOutOfRange
  deriving DecidableEq, Repr

/-- A character that the configurations of a job are separated at. -/
def isSeparator (c : UInt16) : Bool := c == unit ',' || c == unit '='

/-- The parts of a `Uri` that are read: the user and the password, and the components without
them. -/
structure Uri where
  userInfo : Text
  components : Text

/-- What the runtime does. `δ` are the instants. -/
structure Runtime (δ : Type) where
  /-- `Uri.TryCreate` of a string that is not null. -/
  tryCreate : Text → Option Uri
  /-- `DateTimeOffset.TryParseExact` in the one format of the code. -/
  tryParseExact : Text → Option δ
  /-- `StartsWith` in the current culture. -/
  startsWith : Text → Text → Bool
  startsWith_nil : startsWith [] (text "~/") = false
  toLowerInvariant : Text → Text
  /-- What is no letter stays. -/
  filter_toLowerInvariant : ∀ s, (toLowerInvariant s).filter isSeparator = s.filter isSeparator
  /-- `PlatformID.Unix` or `PlatformID.MacOSX` -/
  unix : Bool

structure GitInfo (δ : Type) where
  sourceRoot : Option Text
  repository : Option Text
  branch : Option Text
  commit : Option Text
  authorName : Option Text
  authorEmail : Option Text
  authorDate : Option δ
  committerName : Option Text
  committerEmail : Option Text
  committerDate : Option δ
  message : Option Text

/-- The static properties. -/
structure CIEnvironmentValues (δ : Type) where
  isCI : Bool
  provider : Option Text := none
  repository : Option Text := none
  commit : Option Text := none
  branch : Option Text := none
  tag : Option Text := none
  authorName : Option Text := none
  authorEmail : Option Text := none
  authorDate : Option δ := none
  committerName : Option Text := none
  committerEmail : Option Text := none
  committerDate : Option δ := none
  message : Option Text := none
  sourceRoot : Option Text := none
  pipelineId : Option Text := none
  pipelineName : Option Text := none
  pipelineNumber : Option Text := none
  pipelineUrl : Option Text := none
  jobUrl : Option Text := none
  jobName : Option Text := none
  stageName : Option Text := none
  workspacePath : Option Text := none

variable {δ : Type}

/-! ## Strings -/

def isNullOrWhiteSpace (s : Option Text) : Bool := isBlank (s.getD [])

/-- A string that is put into another one: `null` is empty. -/
def orEmpty (s : Option Text) : Text := s.getD []

/-- `xs[i]` -/
def element (xs : List Text) (i : ℕ) : Except CIException Text :=
  match xs[i]? with
  | some x => .ok x
  | none => .error .indexOutOfRange

/-- `s.Substring(n)` -/
def substring (s : Text) (n : ℕ) : Except CIException Text :=
  if n ≤ s.length then .ok (s.drop n) else .error .argumentOutOfRange

/-- `skip` characters of an occurrence are still to be passed over. -/
def replaceFrom (old new : Text) : ℕ → Text → Text
  | _, [] => []
  | skip + 1, _ :: s => replaceFrom old new skip s
  | 0, c :: s =>
    if old.isPrefixOf (c :: s) then new ++ replaceFrom old new (old.length - 1) s
    else c :: replaceFrom old new 0 s

/-- `s.Replace(old, new)`, where `old` is not empty. -/
def replace (old new s : Text) : Text := replaceFrom old new 0 s

def containsTags (s : Text) : Bool := decide (text "tags" <:+: s)

/-! ## Steps that several providers share -/

namespace CIEnvironmentValues

def cleanBranchAndTag (v : CIEnvironmentValues δ) : CIEnvironmentValues δ :=
  { v with
    branch := (Ci.cleanBranchAndTag v.branch v.tag).1
    tag := (Ci.cleanBranchAndTag v.branch v.tag).2 }

end CIEnvironmentValues

def getEnvironmentVariableIfIsNotEmpty (env : Environment) (key : String)
    (defaultValue : Option Text) : Option Text :=
  if isNullOrEmpty (env key) then defaultValue else env key

def getDateTimeOffsetEnvironmentVariableIfIsNotEmpty (runtime : Runtime δ) (env : Environment)
    (key : String) (defaultValue : Option δ) : Option δ :=
  if isNullOrEmpty (env key) then defaultValue
  else
    match runtime.tryParseExact (orEmpty (env key)) with
    | some date => some date
    | none => defaultValue

/-! ## The providers -/

def setupTravisEnvironment (env : Environment) (v : CIEnvironmentValues δ) :
    CIEnvironmentValues δ :=
  let prSlug := env "TRAVIS_PULL_REQUEST_SLUG"
  let repoSlug := if !isNullOrEmpty prSlug then prSlug else env "TRAVIS_REPO_SLUG"
  let tag := env "TRAVIS_TAG"
  { v with
    isCI := true
    provider := some (text "travisci")
    repository := some (text "https://github.com/" ++ orEmpty repoSlug ++ text ".git")
    commit := env "TRAVIS_COMMIT"
    tag := tag
    branch :=
      if isNullOrEmpty tag then
        let branch := env "TRAVIS_PULL_REQUEST_BRANCH"
        if isNullOrWhiteSpace branch then env "TRAVIS_BRANCH" else branch
      else v.branch
    sourceRoot := env "TRAVIS_BUILD_DIR"
    workspacePath := env "TRAVIS_BUILD_DIR"
    pipelineId := env "TRAVIS_BUILD_ID"
    pipelineNumber := env "TRAVIS_BUILD_NUMBER"
    pipelineName := repoSlug
    pipelineUrl := env "TRAVIS_BUILD_WEB_URL"
    jobUrl := env "TRAVIS_JOB_WEB_URL"
    message := env "TRAVIS_COMMIT_MESSAGE" }

def setupCircleCiEnvironment (env : Environment) (v : CIEnvironmentValues δ) :
    CIEnvironmentValues δ :=
  let tag := env "CIRCLE_TAG"
  let pipelineId := env "CIRCLE_WORKFLOW_ID"
  { v with
    isCI := true
    provider := some (text "circleci")
    repository := env "CIRCLE_REPOSITORY_URL"
    commit := env "CIRCLE_SHA1"
    tag := tag
    branch := if isNullOrEmpty tag then env "CIRCLE_BRANCH" else v.branch
    sourceRoot := env "CIRCLE_WORKING_DIRECTORY"
    workspacePath := env "CIRCLE_WORKING_DIRECTORY"
    pipelineId := pipelineId
    pipelineName := env "CIRCLE_PROJECT_REPONAME"
    pipelineUrl := some (text "https://app.circleci.com/pipelines/workflows/" ++
      orEmpty pipelineId)
    jobName := env "CIRCLE_JOB"
    jobUrl := env "CIRCLE_BUILD_URL" }

/-- First, the git branch is removed from the raw jobName. -/
def jobNameNoBranch (branch : Option Text) (pipelineName : Text) : Text :=
  match branch with
  | some branch => replace (unit '/' :: branch) [] (trim pipelineName)
  | none => pipelineName

/-- One round of the loop over `key1=value1,key2=value2`. -/
def addConfiguration (configurations : Dictionary Text Text) (configKeyValue : Text) :
    Except CIException (Dictionary Text Text) := do
  let keyValue := (trim configKeyValue).splitOn (unit '=')
  let key ← element keyValue 0
  let value ← element keyValue 1
  pure (configurations.set key value)

def jobConfigurations (runtime : Runtime δ) (jobNameParts : List Text) :
    Except CIException (Dictionary Text Text) :=
  match jobNameParts[1]? with
  | some part =>
    if unit '=' ∈ part then
      let configsStr := trim (runtime.toLowerInvariant part)
      (configsStr.splitOn (unit ',')).foldlM addConfiguration ∅
    else .ok ∅
  | none => .ok ∅

/-- The branch and the tag, both null so far, from `GIT_BRANCH`. -/
def jenkinsBranchAndTag (env : Environment) : Option Text × Option Text :=
  let gitBranch := env "GIT_BRANCH"
  if gitBranch.map containsTags = some true then (none, gitBranch) else (gitBranch, none)

/-- What Jenkins gives, but for the name of the pipeline. -/
def jenkinsValues (env : Environment) (v : CIEnvironmentValues δ) : CIEnvironmentValues δ :=
  let repository := env "GIT_URL"
  { v with
    isCI := true
    provider := some (text "jenkins")
    repository := if isNullOrEmpty repository then env "GIT_URL_1" else repository
    commit := env "GIT_COMMIT"
    branch := (jenkinsBranchAndTag env).1
    tag := (jenkinsBranchAndTag env).2
    sourceRoot := env "WORKSPACE"
    workspacePath := env "WORKSPACE"
    pipelineId := env "BUILD_TAG"
    pipelineNumber := env "BUILD_NUMBER"
    pipelineUrl := env "BUILD_URL" }

def setupJenkinsEnvironment (runtime : Runtime δ) (env : Environment)
    (v : CIEnvironmentValues δ) : Except CIException (CIEnvironmentValues δ) :=
  let v := jenkinsValues env v
  match env "JOB_NAME" with
  | none => .ok v
  | some pipelineName => do
    let v := v.cleanBranchAndTag
    let jobName := jobNameNoBranch v.branch pipelineName
    let jobNameParts := jobName.splitOn (unit '/')
    let configurations ← jobConfigurations runtime jobNameParts
    -- without configurations the jobName is the original one without branch
    if configurations.entries.length = 0 then
      pure { v with pipelineName := some jobName }
    else
      let first ← element jobNameParts 0
      pure { v with pipelineName := some first }

/-- `author.Split('<', '>')` -/
def splitAuthor (author : Text) : List Text :=
  author.splitOnP fun c => c == unit '<' || c == unit '>'

def setupGitlabEnvironment (runtime : Runtime δ) (env : Environment)
    (v : CIEnvironmentValues δ) : Except CIException (CIEnvironmentValues δ) :=
  let branch := env "CI_COMMIT_BRANCH"
  let v := { v with
    isCI := true
    provider := some (text "gitlab")
    repository := env "CI_REPOSITORY_URL"
    commit := env "CI_COMMIT_SHA"
    branch := if isNullOrWhiteSpace branch then env "CI_COMMIT_REF_NAME" else branch
    tag := env "CI_COMMIT_TAG"
    sourceRoot := env "CI_PROJECT_DIR"
    workspacePath := env "CI_PROJECT_DIR"
    pipelineId := env "CI_PIPELINE_ID"
    pipelineName := env "CI_PROJECT_PATH"
    pipelineNumber := env "CI_PIPELINE_IID"
    pipelineUrl := env "CI_PIPELINE_URL"
    jobUrl := env "CI_JOB_URL"
    jobName := env "CI_JOB_NAME"
    stageName := env "CI_JOB_STAGE"
    message := env "CI_COMMIT_MESSAGE" }
  match env "CI_COMMIT_AUTHOR" with
  | none => .error .nullReference
  | some author => do
    let authorArray := splitAuthor author
    let authorName ← element authorArray 0
    let authorEmail ← element authorArray 1
    let authorDate :=
      getDateTimeOffsetEnvironmentVariableIfIsNotEmpty runtime env "CI_COMMIT_TIMESTAMP" none
    pure { v with
      authorName := some (trim authorName)
      authorEmail := some (trim authorEmail)
      authorDate := if authorDate.isSome then authorDate else v.authorDate
      pipelineUrl := v.pipelineUrl.map (replace (text "/-/pipelines/") (text "/pipelines/")) }

def setupAppveyorEnvironment (env : Environment) (v : CIEnvironmentValues δ) :
    CIEnvironmentValues δ :=
  let repoProvider := env "APPVEYOR_REPO_PROVIDER"
  let pipelineUrl := text "https://ci.appveyor.com/project/" ++
    orEmpty (env "APPVEYOR_REPO_NAME") ++ text "/builds/" ++ orEmpty (env "APPVEYOR_BUILD_ID")
  let branch := env "APPVEYOR_PULL_REQUEST_HEAD_REPO_BRANCH"
  { v with
    isCI := true
    provider := some (text "appveyor")
    repository :=
      if repoProvider = some (text "github") then
        some (text "https://github.com/" ++ orEmpty (env "APPVEYOR_REPO_NAME") ++ text ".git")
      else env "APPVEYOR_REPO_NAME"
    commit := env "APPVEYOR_REPO_COMMIT"
    sourceRoot := env "APPVEYOR_BUILD_FOLDER"
    workspacePath := env "APPVEYOR_BUILD_FOLDER"
    pipelineId := env "APPVEYOR_BUILD_ID"
    pipelineName := env "APPVEYOR_REPO_NAME"
    pipelineNumber := env "APPVEYOR_BUILD_NUMBER"
    pipelineUrl := some pipelineUrl
    jobUrl := some pipelineUrl
    branch := if isNullOrWhiteSpace branch then env "APPVEYOR_REPO_BRANCH" else branch
    tag := env "APPVEYOR_REPO_TAG_NAME"
    message := env "APPVEYOR_REPO_COMMIT_MESSAGE_EXTENDED"
    authorName := env "APPVEYOR_REPO_COMMIT_AUTHOR"
    authorEmail := env "APPVEYOR_REPO_COMMIT_AUTHOR_EMAIL" }

def setupAzurePipelinesEnvironment (env : Environment) (v : CIEnvironmentValues δ) :
    CIEnvironmentValues δ :=
  let prRepo := env "SYSTEM_PULLREQUEST_SOURCEREPOSITORYURI"
  let prCommit := env "SYSTEM_PULLREQUEST_SOURCECOMMITID"
  let prBranch := env "SYSTEM_PULLREQUEST_SOURCEBRANCH"
  let branch := if !isNullOrWhiteSpace prBranch then prBranch else env "BUILD_SOURCEBRANCH"
  { v with
    isCI := true
    provider := some (text "azurepipelines")
    sourceRoot := env "BUILD_SOURCESDIRECTORY"
    workspacePath := env "BUILD_SOURCESDIRECTORY"
    pipelineId := env "BUILD_BUILDID"
    pipelineName := env "BUILD_DEFINITIONNAME"
    pipelineNumber := env "BUILD_BUILDID"
    pipelineUrl := some (orEmpty (env "SYSTEM_TEAMFOUNDATIONSERVERURI") ++
      orEmpty (env "SYSTEM_TEAMPROJECTID") ++ text "/_build/results?buildId=" ++
      orEmpty (env "BUILD_BUILDID"))
    stageName := env "SYSTEM_STAGEDISPLAYNAME"
    jobName := env "SYSTEM_JOBDISPLAYNAME"
    jobUrl := some (orEmpty (env "SYSTEM_TEAMFOUNDATIONSERVERURI") ++
      orEmpty (env "SYSTEM_TEAMPROJECTID") ++ text "/_build/results?buildId=" ++
      orEmpty (env "BUILD_BUILDID") ++ text "&view=logs&j=" ++ orEmpty (env "SYSTEM_JOBID") ++
      text "&t=" ++ orEmpty (env "SYSTEM_TASKINSTANCEID"))
    repository := if !isNullOrWhiteSpace prRepo then prRepo else env "BUILD_REPOSITORY_URI"
    commit := if !isNullOrWhiteSpace prCommit then prCommit else env "BUILD_SOURCEVERSION"
    branch := if isNullOrWhiteSpace branch then env "BUILD_SOURCEBRANCHNAME" else branch
    message := env "BUILD_SOURCEVERSIONMESSAGE"
    authorName := env "BUILD_REQUESTEDFORID"
    authorEmail := env "BUILD_REQUESTEDFOREMAIL" }

def setupBitbucketEnvironment (env : Environment) (v : CIEnvironmentValues δ) :
    CIEnvironmentValues δ :=
  let pipelineUrl := text "https://bitbucket.org/" ++ orEmpty (env "BITBUCKET_REPO_FULL_NAME") ++
    text "/addon/pipelines/home#!/results/" ++ orEmpty (env "BITBUCKET_BUILD_NUMBER")
  { v with
    isCI := true
    provider := some (text "bitbucket")
    repository := env "BITBUCKET_GIT_SSH_ORIGIN"
    commit := env "BITBUCKET_COMMIT"
    branch := env "BITBUCKET_BRANCH"
    tag := env "BITBUCKET_TAG"
    sourceRoot := env "BITBUCKET_CLONE_DIR"
    workspacePath := env "BITBUCKET_CLONE_DIR"
    pipelineId := (env "BITBUCKET_PIPELINE_UUID").map fun uuid =>
      replace [0x7B] [] (replace [0x7D] [] uuid)
    pipelineNumber := env "BITBUCKET_BUILD_NUMBER"
    pipelineName := env "BITBUCKET_REPO_FULL_NAME"
    pipelineUrl := some pipelineUrl
    jobUrl := some pipelineUrl }

def setupGithubActionsEnvironment (env : Environment) (v : CIEnvironmentValues δ) :
    CIEnvironmentValues δ :=
  let headRef := env "GITHUB_HEAD_REF"
  let ghRef := if !isNullOrEmpty headRef then headRef else env "GITHUB_REF"
  let commit := env "GITHUB_SHA"
  let pipelineUrl := text "https://github.com/" ++ orEmpty (env "GITHUB_REPOSITORY") ++
    text "/commit/" ++ orEmpty commit ++ text "/checks"
  { v with
    isCI := true
    provider := some (text "github")
    repository := some (text "https://github.com/" ++ orEmpty (env "GITHUB_REPOSITORY") ++
      text ".git")
    commit := commit
    branch := if ghRef.map containsTags = some true then v.branch else ghRef
    tag := if ghRef.map containsTags = some true then ghRef else v.tag
    sourceRoot := env "GITHUB_WORKSPACE"
    workspacePath := env "GITHUB_WORKSPACE"
    pipelineId := env "GITHUB_RUN_ID"
    pipelineNumber := env "GITHUB_RUN_NUMBER"
    pipelineName := env "GITHUB_WORKFLOW"
    pipelineUrl := some pipelineUrl
    jobUrl := some pipelineUrl }

def setupTeamcityEnvironment (env : Environment) (v : CIEnvironmentValues δ) :
    CIEnvironmentValues δ :=
  { v with
    isCI := true
    provider := some (text "teamcity")
    repository := env "BUILD_VCS_URL"
    workspacePath := env "BUILD_VCS_URL"
    commit := env "BUILD_VCS_NUMBER"
    sourceRoot := env "BUILD_CHECKOUTDIR"
    pipelineId := env "BUILD_ID"
    pipelineNumber := env "BUILD_NUMBER"
    pipelineUrl :=
      match env "BUILD_ID", env "SERVER_URL" with
      | some pipelineId, some serverUrl =>
        some (serverUrl ++ text "/viewLog.html?buildId=" ++ pipelineId)
      | _, _ => none }

def setupBuildkiteEnvironment (env : Environment) (v : CIEnvironmentValues δ) :
    CIEnvironmentValues δ :=
  { v with
    isCI := true
    provider := some (text "buildkite")
    repository := env "BUILDKITE_REPO"
    commit := env "BUILDKITE_COMMIT"
    branch := env "BUILDKITE_BRANCH"
    tag := env "BUILDKITE_TAG"
    sourceRoot := env "BUILDKITE_BUILD_CHECKOUT_PATH"
    workspacePath := env "BUILDKITE_BUILD_CHECKOUT_PATH"
    pipelineId := env "BUILDKITE_BUILD_ID"
    pipelineNumber := env "BUILDKITE_BUILD_NUMBER"
    pipelineName := env "BUILDKITE_PIPELINE_SLUG"
    pipelineUrl := env "BUILDKITE_BUILD_URL"
    jobUrl := some (orEmpty (env "BUILDKITE_BUILD_URL") ++ text "#" ++
      orEmpty (env "BUILDKITE_JOB_ID"))
    message := env "BUILDKITE_MESSAGE"
    authorName := env "BUILDKITE_BUILD_AUTHOR"
    authorEmail := env "BUILDKITE_BUILD_AUTHOR_EMAIL" }

def setupBitriseEnvironment (env : Environment) (v : CIEnvironmentValues δ) :
    CIEnvironmentValues δ :=
  let prCommit := env "BITRISE_GIT_COMMIT"
  let prBranch := env "BITRISEIO_GIT_BRANCH_DEST"
  { v with
    isCI := true
    provider := some (text "bitrise")
    repository := env "GIT_REPOSITORY_URL"
    commit := if !isNullOrWhiteSpace prCommit then prCommit else env "GIT_CLONE_COMMIT_HASH"
    branch := if !isNullOrWhiteSpace prBranch then prBranch else env "BITRISE_GIT_BRANCH"
    tag := env "BITRISE_GIT_TAG"
    sourceRoot := env "BITRISE_SOURCE_DIR"
    workspacePath := env "BITRISE_SOURCE_DIR"
    pipelineId := env "BITRISE_BUILD_SLUG"
    pipelineNumber := env "BITRISE_BUILD_NUMBER"
    pipelineName := env "BITRISE_TRIGGERED_WORKFLOW_ID"
    pipelineUrl := env "BITRISE_BUILD_URL"
    message := env "BITRISE_GIT_MESSAGE" }

/-! ## The whole -/

inductive Provider where
  | travis
  | circleCi
  | jenkins
  | gitlab
  | appveyor
  | azurePipelines
  | bitbucket
  | githubActions
  | teamcity
  | buildkite
  | bitrise
  /-- No provider: all there is is the git folder. -/
  | gitOnly
  deriving DecidableEq, Repr

/-- The first provider whose variable is there. -/
def detect (env : Environment) : Provider :=
  if (env "TRAVIS").isSome then .travis
  else if (env "CIRCLECI").isSome then .circleCi
  else if (env "JENKINS_URL").isSome then .jenkins
  else if (env "GITLAB_CI").isSome then .gitlab
  else if (env "APPVEYOR").isSome then .appveyor
  else if (env "TF_BUILD").isSome then .azurePipelines
  else if (env "BITBUCKET_COMMIT").isSome then .bitbucket
  else if (env "GITHUB_SHA").isSome then .githubActions
  else if (env "TEAMCITY_VERSION").isSome then .teamcity
  else if (env "BUILDKITE").isSome then .buildkite
  else if (env "BITRISE_BUILD_SLUG").isSome then .bitrise
  else .gitOnly

def setup (runtime : Runtime δ) (env : Environment) (gitInfo : GitInfo δ)
    (v : CIEnvironmentValues δ) : Provider → Except CIException (CIEnvironmentValues δ)
  | .travis => .ok (setupTravisEnvironment env v)
  | .circleCi => .ok (setupCircleCiEnvironment env v)
  | .jenkins => setupJenkinsEnvironment runtime env v
  | .gitlab => setupGitlabEnvironment runtime env v
  | .appveyor => .ok (setupAppveyorEnvironment env v)
  | .azurePipelines => .ok (setupAzurePipelinesEnvironment env v)
  | .bitbucket => .ok (setupBitbucketEnvironment env v)
  | .githubActions => .ok (setupGithubActionsEnvironment env v)
  | .teamcity => .ok (setupTeamcityEnvironment env v)
  | .buildkite => .ok (setupBuildkiteEnvironment env v)
  | .bitrise => .ok (setupBitriseEnvironment env v)
  | .gitOnly => .ok { v with
      branch := gitInfo.branch
      commit := gitInfo.commit
      repository := gitInfo.repository
      sourceRoot := gitInfo.sourceRoot
      workspacePath := gitInfo.sourceRoot }

namespace CIEnvironmentValues

/-- Author, committer and message from git, where the commit is the one of the build. -/
def addGitInfo (gitInfo : GitInfo δ) (v : CIEnvironmentValues δ) : CIEnvironmentValues δ :=
  if gitInfo.commit = v.commit then
    { v with
      authorName := if isNullOrEmpty v.authorName then gitInfo.authorName else v.authorName
      authorEmail := if isNullOrEmpty v.authorEmail then gitInfo.authorEmail else v.authorEmail
      authorDate := if v.authorDate.isNone then gitInfo.authorDate else v.authorDate
      committerName :=
        if isNullOrEmpty v.committerName then gitInfo.committerName else v.committerName
      committerEmail :=
        if isNullOrEmpty v.committerEmail then gitInfo.committerEmail else v.committerEmail
      committerDate := if v.committerDate.isNone then gitInfo.committerDate else v.committerDate
      message := if isNullOrEmpty v.message then gitInfo.message else v.message }
  else v

/-- Remove sensitive info from repository url. -/
def removeUserInfo (runtime : Runtime δ) (v : CIEnvironmentValues δ) : CIEnvironmentValues δ :=
  match v.repository.bind runtime.tryCreate with
  | some uri => if uri.userInfo ≠ [] then { v with repository := some uri.components } else v
  | none => v

end CIEnvironmentValues

def expandPath (runtime : Runtime δ) (env : Environment) (path : Option Text) :
    Except CIException (Option Text) :=
  if path = some (text "~") ∨ path.map (runtime.startsWith · (text "~/")) = some true then do
    let homePath := if runtime.unix then env "HOME" else env "USERPROFILE"
    let rest ← substring (orEmpty path) 1
    pure (some (orEmpty homePath ++ rest))
  else pure path

/-- Custom environment variables. -/
def CIEnvironmentValues.custom (runtime : Runtime δ) (env : Environment)
    (v : CIEnvironmentValues δ) : CIEnvironmentValues δ :=
  { v with
    branch := getEnvironmentVariableIfIsNotEmpty env "DD_GIT_BRANCH" v.branch
    tag := getEnvironmentVariableIfIsNotEmpty env "DD_GIT_TAG" v.tag
    repository := getEnvironmentVariableIfIsNotEmpty env "DD_GIT_REPOSITORY_URL" v.repository
    commit := getEnvironmentVariableIfIsNotEmpty env "DD_GIT_COMMIT_SHA" v.commit
    message := getEnvironmentVariableIfIsNotEmpty env "DD_GIT_COMMIT_MESSAGE" v.message
    authorName := getEnvironmentVariableIfIsNotEmpty env "DD_GIT_COMMIT_AUTHOR_NAME" v.authorName
    authorEmail :=
      getEnvironmentVariableIfIsNotEmpty env "DD_GIT_COMMIT_AUTHOR_EMAIL" v.authorEmail
    authorDate := getDateTimeOffsetEnvironmentVariableIfIsNotEmpty runtime env
      "DD_GIT_COMMIT_AUTHOR_DATE" v.authorDate
    committerName :=
      getEnvironmentVariableIfIsNotEmpty env "DD_GIT_COMMIT_COMMITTER_NAME" v.committerName
    committerEmail :=
      getEnvironmentVariableIfIsNotEmpty env "DD_GIT_COMMIT_COMMITTER_EMAIL" v.committerEmail
    committerDate := getDateTimeOffsetEnvironmentVariableIfIsNotEmpty runtime env
      "DD_GIT_COMMIT_COMMITTER_DATE" v.committerDate }

/-- `isCI` is what an earlier call has left; everything else is set to null first. -/
def reloadEnvironmentData (runtime : Runtime δ) (env : Environment) (gitInfo : GitInfo δ)
    (isCI : Bool) : Except CIException (CIEnvironmentValues δ) := do
  let v ← setup runtime env gitInfo { isCI := isCI } (detect env)
  let v := (v.addGitInfo gitInfo).removeUserInfo runtime
  let sourceRoot ← expandPath runtime env v.sourceRoot
  let workspacePath ← expandPath runtime env v.workspacePath
  let v := { v with sourceRoot := sourceRoot, workspacePath := workspacePath }
  pure (v.custom runtime env).cleanBranchAndTag

end DdTrace.Ci
