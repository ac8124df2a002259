namespace Egl

/-- The entry points that a program can reach through the installed table. -/
inductive EntryPoint
  | bindApi
  | bindTexImage
  | chooseConfig
  | copyBuffers
  | createContext
  | createPbufferFromClientBuffer
  | createPbufferSurface
  | createPixmapSurface
  | createPlatformWindowSurface
  | createWindowSurface
  | destroyContext
  | destroySurface
  | getConfigAttrib
  | getConfigs
  | getCurrentContext
  | getCurrentDisplay
  | getCurrentSurface
  | getDisplay
  | getProcAddress
  | initializeDisplay
  | makeCurrent
  | queryContext
  | queryString
  | querySurface
  | releaseTexImage
  | releaseThread
  | surfaceAttrib
  | swapBuffers
  | swapInterval
  | terminate
  | waitClient
  | waitGL
  | waitNative
  | getError
  | queryApi
  deriving DecidableEq

namespace EntryPoint

def name : EntryPoint → String
  | bindApi => "eglBindAPI"
  | bindTexImage => "eglBindTexImage"
  | chooseConfig => "eglChooseConfig"
  | copyBuffers => "eglCopyBuffers"
  | createContext => "eglCreateContext"
  | createPbufferFromClientBuffer => "eglCreatePbufferFromClientBuffer"
  | createPbufferSurface => "eglCreatePbufferSurface"
  | createPixmapSurface => "eglCreatePixmapSurface"
  | createPlatformWindowSurface => "eglCreatePlatformWindowSurface"
  | createWindowSurface => "eglCreateWindowSurface"
  | destroyContext => "eglDestroyContext"
  | destroySurface => "eglDestroySurface"
  | getConfigAttrib => "eglGetConfigAttrib"
  | getConfigs => "eglGetConfigs"
  | getCurrentContext => "eglGetCurrentContext"
  | getCurrentDisplay => "eglGetCurrentDisplay"
  | getCurrentSurface => "eglGetCurrentSurface"
  | getDisplay => "eglGetDisplay"
  | getProcAddress => "eglGetProcAddress"
  | initializeDisplay => "eglInitialize"
  | makeCurrent => "eglMakeCurrent"
  | queryContext => "eglQueryContext"
  | queryString => "eglQueryString"
  | querySurface => "eglQuerySurface"
  | releaseTexImage => "eglReleaseTexImage"
  | releaseThread => "eglReleaseThread"
  | surfaceAttrib => "eglSurfaceAttrib"
  | swapBuffers => "eglSwapBuffers"
  | swapInterval => "eglSwapInterval"
  | terminate => "eglTerminate"
  | waitClient => "eglWaitClient"
  | waitGL => "eglWaitGL"
  | waitNative => "eglWaitNative"
  | getError => "eglGetError"
  | queryApi => "eglQueryAPI"

/-- The tag that a failure of the entry point carries. The two state queries never fail and have
the tag 0, which means no error. -/
def tag : EntryPoint → Int32
  | bindApi => 1
  | bindTexImage => 2
  | chooseConfig => 3
  | copyBuffers => 4
  | createContext => 5
  | createPbufferFromClientBuffer => 6
  | createPbufferSurface => 7
  | createPixmapSurface => 8
  | createPlatformWindowSurface => 9
  | createWindowSurface => 10
  | destroyContext => 11
  | destroySurface => 12
  | getConfigAttrib => 13
  | getConfigs => 14
  | getCurrentContext => 15
  | getCurrentDisplay => 16
  | getCurrentSurface => 17
  | getDisplay => 18
  | getProcAddress => 19
  | initializeDisplay => 20
  | makeCurrent => 21
  | queryContext => 22
  | queryString => 23
  | querySurface => 24
  | releaseTexImage => 25
  | releaseThread => 26
  | surfaceAttrib => 27
  | swapBuffers => 28
  | swapInterval => 29
  | terminate => 30
  | waitClient => 31
  | waitGL => 32
  | waitNative => 33
  | getError => 0
  | queryApi => 0

/-- Every entry point: those that can fail in the order of their tags, then the state queries. -/
def all : List EntryPoint :=
  [bindApi, bindTexImage, chooseConfig, copyBuffers, createContext, createPbufferFromClientBuffer,
    createPbufferSurface, createPixmapSurface, createPlatformWindowSurface, createWindowSurface,
    destroyContext, destroySurface, getConfigAttrib, getConfigs, getCurrentContext,
    getCurrentDisplay, getCurrentSurface, getDisplay, getProcAddress, initializeDisplay,
    makeCurrent, queryContext, queryString, querySurface, releaseTexImage, releaseThread,
    surfaceAttrib, swapBuffers, swapInterval, terminate, waitClient, waitGL, waitNative,
    getError, queryApi]

def canFail (e : EntryPoint) : Bool := e.tag ≠ 0

def ofTag? (tag : Int32) : Option EntryPoint := all.find? fun e => e.canFail && e.tag = tag

theorem mem_all (e : EntryPoint) : e ∈ all := by cases e <;> decide

theorem ofTag?_tag {e : EntryPoint} (h : e.canFail = true) : ofTag? e.tag = some e := by
  revert h
  cases e <;> decide

def ofName? (name : String) : Option EntryPoint := all.find? (·.name = name)

end EntryPoint

end Egl
